import Eunha.Certificates
import Eunha.Octets
import Mathlib

/-!
# RSA signatures

A signature is opened with the public key into an encoded message, and the message is checked
against its padding: of PKCS #1 v1.5, or the probabilistic one with whatever salt it has. What
could go out of range is a step that may abort. The two schemes are stated beside the code as
the standard has them, for every modulus and exponent.
-/
namespace Eunha.RsaSignatures
open Octets
open Certificates (Hash)

/-! ### Hashes -/

def len : Hash → ℕ
  | .sha1 => 20
  | .sha256 => 32
  | .sha384 => 48
  | .sha512 => 64

def digestInfoPrefix : Hash → List UInt8
  | .sha1 => [0x30, 0x21, 0x30, 0x09, 0x06, 0x05, 0x2b, 0x0e, 0x03, 0x02, 0x1a, 0x05, 0x00,
      0x04, 0x14]
  | .sha256 => [0x30, 0x31, 0x30, 0x0d, 0x06, 0x09, 0x60, 0x86, 0x48, 0x01, 0x65, 0x03, 0x04,
      0x02, 0x01, 0x05, 0x00, 0x04, 0x20]
  | .sha384 => [0x30, 0x41, 0x30, 0x0d, 0x06, 0x09, 0x60, 0x86, 0x48, 0x01, 0x65, 0x03, 0x04,
      0x02, 0x02, 0x05, 0x00, 0x04, 0x30]
  | .sha512 => [0x30, 0x51, 0x30, 0x0d, 0x06, 0x09, 0x60, 0x86, 0x48, 0x01, 0x65, 0x03, 0x04,
      0x02, 0x03, 0x05, 0x00, 0x04, 0x40]

/-- The hash functions: what each makes is as long as it says. -/
structure Digests where
  digest : Hash → List UInt8 → List UInt8
  length_digest : ∀ hash data, (digest hash data).length = len hash

/-! ### Steps that may abort -/

/-- A result, or none when the step aborts. -/
abbrev Checked := Option

def sub (a b : ℕ) : Checked ℕ := if b ≤ a then some (a - b) else none

/-- `&s[from..]` -/
def sliceFrom (s : List UInt8) (start : ℕ) : Checked (List UInt8) :=
  if start ≤ s.length then some (s.drop start) else none

/-- `&s[..upTo]` -/
def sliceTo (s : List UInt8) (stop : ℕ) : Checked (List UInt8) :=
  if stop ≤ s.length then some (s.take stop) else none

def splitAt (s : List UInt8) (mid : ℕ) : Checked (List UInt8 × List UInt8) :=
  if mid ≤ s.length then some (s.take mid, s.drop mid) else none

/-- `b >> n` of an octet. -/
def shiftRight (b : UInt8) (n : ℕ) : Checked UInt8 :=
  if n < 8 then some (UInt8.ofNat (b.toNat >>> n)) else none

def resize (s : List UInt8) (length : ℕ) (b : UInt8) : List UInt8 :=
  (s ++ List.replicate (length - s.length) b).take length

/-! ### The code -/

/-- `s^e mod n` as a key-length string, and the key's length in bytes. -/
def rsaOpen (n e : ℕ) (signature : List UInt8) : Option (List UInt8 × ℕ) :=
  let k := divCeil (Nat.size n) 8
  if k = 0 || k < signature.length then none
  else
    let s := os2ip signature
    if n ≤ s then none
    else
      let x := s ^ e % n
      let m := octets (width x) x
      if k < m.length then none else some (List.replicate (k - m.length) 0 ++ m, k)

def verifyPkcs1 (d : Digests) (n e : ℕ) (hash : Hash) (message signature : List UInt8) :
    Checked Bool :=
  match rsaOpen n e signature with
  | none => some false
  | some (em, k) =>
      if signature.length ≠ k then some false
      else
        let t := digestInfoPrefix hash ++ d.digest hash message
        if k < t.length + 11 then some false
        else
          (sub k t.length).bind fun length => (sub length 1).map fun length =>
            em = resize [0x00, 0x01] length 0xff ++ [0x00] ++ t

/-- The loop of `mgf1`. -/
def mgf1Loop (d : Digests) (hash : Hash) (seed : List UInt8) (length : ℕ) :
    ℕ → List UInt8 → ℕ → List UInt8
  | 0, out, _ => out
  | fuel + 1, out, counter =>
      if out.length < length then
        mgf1Loop d hash seed length fuel (out ++ d.digest hash (seed ++ octets 4 counter))
          ((counter + 1) % 2 ^ 32)
      else out

def mgf1 (d : Digests) (hash : Hash) (seed : List UInt8) (length : ℕ) : List UInt8 :=
  (mgf1Loop d hash seed length length [] 0).take length

def xor (s t : List UInt8) : List UInt8 := List.zipWith (· ^^^ ·) s t

def maskFirst (unusedBits : ℕ) (db : List UInt8) : Checked (List UInt8) :=
  if 0 < unusedBits then
    (shiftRight 0xff unusedBits).bind fun mask => db[0]?.map fun first =>
      db.set 0 (first &&& mask)
  else some db

/-- `verify_pss`, from the unmasked block on. -/
def checkSalt (d : Digests) (hash : Hash) (message h db : List UInt8) : Checked Bool :=
  match db.findIdx? (· ≠ 0) with
  | none => some false
  | some one =>
      db[one]?.bind fun b =>
        if b ≠ 1 then some false
        else
          (sliceFrom db (one + 1)).map fun salt =>
            d.digest hash (List.replicate 8 0 ++ d.digest hash message ++ salt) = h

/-- `verify_pss`, from the encoded message on. -/
def checkPss (d : Digests) (hash : Hash) (message em : List UInt8) (emBits : ℕ) :
    Checked Bool :=
  let emLen := divCeil emBits 8
  let hLen := len hash
  if emLen < hLen + 2 then some false
  else
    (sub emLen 1).bind fun last => em[last]?.bind fun trailer =>
      if trailer ≠ 0xbc then some false
      else
        (sub emLen hLen).bind fun mid => (sub mid 1).bind fun mid => (splitAt em mid).bind
          fun (maskedDb, rest) => (sliceTo rest hLen).bind fun h =>
            (sub (8 * emLen) emBits).bind fun unusedBits =>
              (if 0 < unusedBits then
                (sub 8 unusedBits).bind fun shift => maskedDb[0]?.bind fun first =>
                  shiftRight first shift
              else some 0).bind fun high =>
                if high ≠ 0 then some false
                else
                  (maskFirst unusedBits (xor (mgf1 d hash h maskedDb.length) maskedDb)).bind
                    (checkSalt d hash message h)

def verifyPss (d : Digests) (n e : ℕ) (hash : Hash) (message signature : List UInt8) :
    Checked Bool :=
  match rsaOpen n e signature with
  | none => some false
  | some (emFull, k) =>
      (sub (Nat.size n) 1).bind fun emBits =>
        if divCeil emBits 8 < k then
          emFull[0]?.bind fun first =>
            if first ≠ 0 then some false
            else (sliceFrom emFull 1).bind fun em => checkPss d hash message em emBits
        else checkPss d hash message emFull emBits

/-! ### The standard -/

/-- `EMSA-PKCS1-v1_5-ENCODE` -/
def emsaPkcs1Encode (d : Digests) (hash : Hash) (message : List UInt8) (emLen : ℕ) :
    Option (List UInt8) :=
  let t := digestInfoPrefix hash ++ d.digest hash message
  if emLen < t.length + 11 then none
  else some (0x00 :: 0x01 :: List.replicate (emLen - t.length - 3) 0xff ++ 0x00 :: t)

/-- `RSAVP1`: a representative within the range of the modulus is opened. -/
def rsavp1 (n e s : ℕ) : Option ℕ := if s < n then some (s ^ e % n) else none

/-- `RSASSA-PKCS1-V1_5-VERIFY` -/
def rsassaPkcs1Verify (d : Digests) (n e : ℕ) (hash : Hash) (message signature : List UInt8) :
    Bool :=
  let k := divCeil (Nat.size n) 8
  signature.length = k &&
    ((rsavp1 n e (os2ip signature)).bind fun m => i2osp m k).any fun em =>
      emsaPkcs1Encode d hash message k = some em

abbrev MaskGeneration := Hash → List UInt8 → ℕ → Option (List UInt8)

/-- The octets of `MGF1` with counters of 32 bits, at any length. -/
def maskOctets (d : Digests) (hash : Hash) (seed : List UInt8) (length : ℕ) : List UInt8 :=
  ((List.range (divCeil length (len hash))).flatMap fun counter =>
    d.digest hash (seed ++ octets 4 (counter % 2 ^ 32))).take length

/-- `MGF1` -/
def standardMgf1 (d : Digests) : MaskGeneration := fun hash seed length =>
  if length ≤ 2 ^ 32 * len hash then some (maskOctets d hash seed length) else none

/-- `MGF1` whose counter starts again when it runs over. -/
def longMgf1 (d : Digests) : MaskGeneration := fun hash seed length =>
  some (maskOctets d hash seed length)

/-- The leftmost bits of the first octet set to zero. -/
def clearLeftmost (unused : ℕ) (db : List UInt8) : List UInt8 :=
  match db with
  | [] => []
  | first :: rest => UInt8.ofNat (first.toNat % 2 ^ (8 - unused)) :: rest

/-- `EMSA-PSS-VERIFY` for a salt of a length. -/
def emsaPssVerify (d : Digests) (mgf : MaskGeneration) (hash : Hash) (message em : List UInt8)
    (emBits sLen : ℕ) : Bool :=
  let emLen := divCeil emBits 8
  let hLen := len hash
  let unused := 8 * emLen - emBits
  let maskedDb := em.take (emLen - hLen - 1)
  let h := (em.drop (emLen - hLen - 1)).take hLen
  hLen + sLen + 2 ≤ emLen && em.getLast? = some 0xbc &&
    maskedDb.head?.all (fun first => first.toNat / 2 ^ (8 - unused) = 0) &&
    (mgf hash h (emLen - hLen - 1)).any fun dbMask =>
      let db := clearLeftmost unused (xor maskedDb dbMask)
      (db.take (emLen - hLen - sLen - 2)).all (· = 0) && db[emLen - hLen - sLen - 2]? = some 1 &&
        d.digest hash (List.replicate 8 0 ++ d.digest hash message ++
          db.drop (emLen - hLen - sLen - 1)) = h

/-- `RSASSA-PSS-VERIFY` for a salt of a length. -/
def rsassaPssVerify (d : Digests) (mgf : MaskGeneration) (n e : ℕ) (hash : Hash)
    (message signature : List UInt8) (sLen : ℕ) : Bool :=
  let k := divCeil (Nat.size n) 8
  let emBits := Nat.size n - 1
  signature.length = k &&
    ((rsavp1 n e (os2ip signature)).bind fun m => i2osp m (divCeil emBits 8)).any fun em =>
      emsaPssVerify d mgf hash message em emBits sLen

/-! ### What is opened -/

variable {d : Digests} {n e : ℕ} {hash : Hash} {message signature em : List UInt8}

theorem lt_pow_divCeil (n : ℕ) : n < 256 ^ divCeil (Nat.size n) 8 := by
  rw [show (256 : ℕ) = 2 ^ 8 from rfl, ← pow_mul, ← Nat.size_le, divCeil]
  omega

theorem rsaOpen_some (hlen : signature.length ≤ divCeil (Nat.size n) 8)
    (hlt : os2ip signature < n) :
    rsaOpen n e signature =
      some (octets (divCeil (Nat.size n) 8) (os2ip signature ^ e % n), divCeil (Nat.size n) 8) := by
  have hk : 1 ≤ divCeil (Nat.size n) 8 := by
    have hpos : 0 < Nat.size n := Nat.size_pos.mpr (by omega)
    unfold divCeil
    omega
  have hx : os2ip signature ^ e % n < 256 ^ divCeil (Nat.size n) 8 :=
    (Nat.mod_lt _ (by omega)).trans (lt_pow_divCeil n)
  have hwidth := (width_le_iff hk).mpr hx
  have hfirst : (divCeil (Nat.size n) 8 = 0 || divCeil (Nat.size n) 8 < signature.length) = false := by
    rw [Bool.or_eq_false_iff, decide_eq_false_iff_not, decide_eq_false_iff_not]
    omega
  simp only [rsaOpen, hfirst, Bool.false_eq_true, if_false]
  rw [if_neg (by omega), if_neg (by rw [length_octets]; omega), replicate_octets hk hx]

theorem rsaOpen_none (h : ¬ (signature.length ≤ divCeil (Nat.size n) 8 ∧ os2ip signature < n)) :
    rsaOpen n e signature = none := by
  simp only [rsaOpen]
  by_cases hlen : signature.length ≤ divCeil (Nat.size n) 8
  · split_ifs with h₁ h₂
    · rfl
    · rfl
    · omega
    · omega
  · have hfirst : (divCeil (Nat.size n) 8 = 0 ||
        divCeil (Nat.size n) 8 < signature.length) = true := by
      rw [Bool.or_eq_true, decide_eq_true_eq, decide_eq_true_eq]
      omega
    rw [if_pos hfirst]

theorem resize_start (length : ℕ) (hlength : 2 ≤ length) :
    resize [0x00, 0x01] length 0xff = 0x00 :: 0x01 :: List.replicate (length - 2) 0xff := by
  unfold resize
  rw [List.take_of_length_le (by simp; omega)]
  rfl

theorem verifyPkcs1_eq (d : Digests) (n e : ℕ) (hash : Hash) (message signature : List UInt8) :
    verifyPkcs1 d n e hash message signature =
      some (rsassaPkcs1Verify d n e hash message signature) := by
  unfold verifyPkcs1 rsassaPkcs1Verify rsavp1
  by_cases hopen : signature.length ≤ divCeil (Nat.size n) 8 ∧ os2ip signature < n
  · obtain ⟨hlen, hlt⟩ := hopen
    rw [rsaOpen_some hlen hlt]
    have hx : os2ip signature ^ e % n < 256 ^ divCeil (Nat.size n) 8 :=
      (Nat.mod_lt _ (by omega)).trans (lt_pow_divCeil n)
    simp only
    by_cases heq : signature.length = divCeil (Nat.size n) 8
    · rw [if_neg (by omega), if_pos hlt, Option.bind_some, i2osp, if_pos hx, Option.any_some,
        emsaPkcs1Encode]
      simp only [heq, decide_true, Bool.true_and]
      by_cases hshort : divCeil (Nat.size n) 8 <
          (digestInfoPrefix hash ++ d.digest hash message).length + 11
      · rw [if_pos hshort, if_pos hshort]
        simp
      · rw [if_neg hshort, if_neg hshort, sub, if_pos (by omega), Option.bind_some, sub,
          if_pos (by omega), Option.map_some, resize_start _ (by omega)]
        refine congrArg some (decide_eq_decide.mpr ?_)
        rw [Option.some.injEq, show divCeil (Nat.size n) 8 -
          (digestInfoPrefix hash ++ d.digest hash message).length - 1 - 2 = divCeil (Nat.size n) 8 -
          (digestInfoPrefix hash ++ d.digest hash message).length - 3 by omega]
        simp [eq_comm]
    · rw [if_pos heq]
      simp [heq]
  · rw [rsaOpen_none hopen]
    simp only [Option.some.injEq]
    by_cases heq : signature.length = divCeil (Nat.size n) 8
    · have hlt : ¬ os2ip signature < n := by omega
      rw [if_neg hlt]
      simp
    · simp [heq]

/-! ### The mask -/

theorem len_pos (hash : Hash) : 0 < len hash := by cases hash <;> decide

def hashes (d : Digests) (hash : Hash) (seed : List UInt8) (count : ℕ) : List UInt8 :=
  (List.range count).flatMap fun counter => d.digest hash (seed ++ octets 4 (counter % 2 ^ 32))

theorem hashes_succ (seed : List UInt8) (count : ℕ) :
    hashes d hash seed (count + 1) =
      hashes d hash seed count ++ d.digest hash (seed ++ octets 4 (count % 2 ^ 32)) := by
  simp [hashes, List.range_succ]

variable (d hash) in
theorem length_hashes (seed : List UInt8) (count : ℕ) :
    (hashes d hash seed count).length = count * len hash := by
  induction count with
  | zero => simp [hashes]
  | succ count ih =>
      rw [hashes_succ, List.length_append, ih, d.length_digest]
      ring

variable (d hash) in
theorem mgf1Loop_eq (seed : List UInt8) (length fuel : ℕ) {count : ℕ}
    (hcount : count ≤ divCeil length (len hash)) (hfuel : divCeil length (len hash) ≤ count + fuel) :
    mgf1Loop d hash seed length fuel (hashes d hash seed count) (count % 2 ^ 32) =
      hashes d hash seed (divCeil length (len hash)) := by
  have hlen := len_pos hash
  induction fuel generalizing count with
  | zero =>
      rw [mgf1Loop, show count = divCeil length (len hash) by omega]
  | succ fuel ih =>
      rw [mgf1Loop, length_hashes]
      by_cases hlt : count < divCeil length (len hash)
      · rw [if_pos ((lt_divCeil hlen).mp hlt), ← hashes_succ, Nat.mod_add_mod]
        exact ih (by omega) (by omega)
      · rw [if_neg fun h => hlt ((lt_divCeil hlen).mpr h), show count = divCeil length (len hash) by omega]

theorem mgf1_eq (seed : List UInt8) (length : ℕ) :
    mgf1 d hash seed length = maskOctets d hash seed length := by
  have hloop := mgf1Loop_eq d hash seed length length (Nat.zero_le _)
    (by rw [Nat.zero_add]; exact divCeil_le (len_pos hash))
  exact congrArg (List.take length) hloop

variable (d hash) in
theorem length_mgf1 (seed : List UInt8) (length : ℕ) :
    (mgf1 d hash seed length).length = length := by
  have hhashes := length_hashes d hash seed (divCeil length (len hash))
  rw [hashes] at hhashes
  rw [mgf1_eq, maskOctets, List.length_take, hhashes, Nat.min_eq_left]
  exact le_divCeil_mul (len_pos hash)

/-! ### The padding -/

/-- Where the salt begins: after zeros and a one. -/
structure SaltAt (d : Digests) (hash : Hash) (message h db : List UInt8) (one : ℕ) : Prop where
  zeros : (db.take one).all (· = 0) = true
  marked : db[one]? = some 1
  hashed : d.digest hash (List.replicate 8 0 ++ d.digest hash message ++ db.drop (one + 1)) = h

theorem checkSalt_eq (d : Digests) (hash : Hash) (message h db : List UInt8) :
    ∃ b, checkSalt d hash message h db = some b ∧
      (b = true ↔ ∃ one, SaltAt d hash message h db one) := by
  unfold checkSalt
  cases hfind : db.findIdx? (· ≠ 0) with
  | none =>
      refine ⟨false, rfl, ?_⟩
      simp only [Bool.false_eq_true, false_iff]
      rintro ⟨one, hsalt⟩
      have hall := List.findIdx?_eq_none_iff.mp hfind 1 (List.mem_of_getElem? hsalt.marked)
      simp at hall
  | some i =>
      obtain ⟨hi, hne, hbefore⟩ := List.findIdx?_eq_some_iff_getElem.mp hfind
      have hget : db[i]? = some db[i] := List.getElem?_eq_getElem hi
      have hslice : sliceFrom db (i + 1) = some (db.drop (i + 1)) := by
        rw [sliceFrom, if_pos (Nat.succ_le_of_lt hi)]
      -- no other place is the first that is not zero
      have honly : ∀ one, SaltAt d hash message h db one → one = i := by
        intro one hsalt
        rcases Nat.lt_trichotomy one i with hlt | heq | hgt
        · have hzero := hbefore one hlt
          have hone := hsalt.marked
          rw [List.getElem?_eq_getElem (hlt.trans hi), Option.some.injEq] at hone
          simp [hone] at hzero
        · exact heq
        · have hmem : db[i] ∈ db.take one := List.mem_take_iff_getElem.mpr ⟨i, by omega, rfl⟩
          have hzero := List.all_eq_true.mp hsalt.zeros _ hmem
          simp only [decide_eq_true_eq] at hzero
          simp [hzero] at hne
      simp only [hget, Option.bind_some]
      by_cases hone : db[i] = 1
      · rw [if_neg (by simpa using hone), hslice]
        refine ⟨_, rfl, ?_⟩
        rw [decide_eq_true_eq]
        constructor
        · intro hhash
          refine ⟨i, ?_, by rw [hget, hone], hhash⟩
          rw [List.all_eq_true]
          intro b hb
          obtain ⟨j, hj, rfl⟩ := List.mem_take_iff_getElem.mp hb
          simpa using hbefore j (by omega)
        · rintro ⟨one, hsalt⟩
          have heq := honly one hsalt
          subst heq
          exact hsalt.hashed
      · rw [if_pos hone]
        refine ⟨false, rfl, ?_⟩
        simp only [Bool.false_eq_true, false_iff]
        rintro ⟨one, hsalt⟩
        have heq := honly one hsalt
        subst heq
        have := hsalt.marked
        rw [hget, Option.some.injEq] at this
        exact hone this

/-! ### Bits of the first octet -/

theorem shiftRight_zero_iff (b : UInt8) {n : ℕ} (hn : n < 8) :
    ∃ c, shiftRight b n = some c ∧ (c = 0 ↔ b.toNat / 2 ^ n = 0) := by
  refine ⟨UInt8.ofNat (b.toNat >>> n), if_pos hn, ?_⟩
  have hlt : b.toNat >>> n < 256 :=
    lt_of_le_of_lt (by rw [Nat.shiftRight_eq_div_pow]; exact Nat.div_le_self _ _) b.toNat_lt
  rw [← UInt8.toNat_inj, UInt8.toNat_ofNat_of_lt' hlt, Nat.shiftRight_eq_div_pow]
  rfl

theorem and_mask (b : UInt8) {n : ℕ} (hn : n < 8) :
    b &&& UInt8.ofNat ((0xff : UInt8).toNat >>> n) = UInt8.ofNat (b.toNat % 2 ^ (8 - n)) := by
  have hmask : (0xff : UInt8).toNat >>> n = 2 ^ (8 - n) - 1 := by
    interval_cases n <;> decide
  have hlt : 2 ^ (8 - n) - 1 < 256 := by
    interval_cases n <;> decide
  have hmod : b.toNat % 2 ^ (8 - n) < 256 :=
    lt_of_le_of_lt (Nat.mod_le _ _) b.toNat_lt
  rw [← UInt8.toNat_inj, UInt8.toNat_and, hmask, UInt8.toNat_ofNat_of_lt' hlt,
    UInt8.toNat_ofNat_of_lt' hmod, Nat.and_two_pow_sub_one_eq_mod]

theorem maskFirst_eq {db : List UInt8} (hdb : db ≠ []) {unused : ℕ} (hunused : unused < 8) :
    maskFirst unused db = some (clearLeftmost unused db) := by
  obtain ⟨first, rest, rfl⟩ := List.exists_cons_of_ne_nil hdb
  unfold maskFirst
  by_cases hpos : 0 < unused
  · rw [if_pos hpos, shiftRight, if_pos hunused, Option.bind_some, List.getElem?_cons_zero,
      Option.map_some, and_mask first hunused, List.set_cons_zero]
    rfl
  · rw [if_neg hpos, show unused = 0 by omega]
    have hmod : first.toNat % 2 ^ 8 = first.toNat := Nat.mod_eq_of_lt first.toNat_lt
    rw [clearLeftmost, Nat.sub_zero, hmod, UInt8.ofNat_toNat]

theorem length_clearLeftmost (unused : ℕ) (db : List UInt8) :
    (clearLeftmost unused db).length = db.length := by
  cases db <;> rfl

/-! ### The encoded message -/

theorem head?_eq_getElem (s : List UInt8) : s.head? = s[0]? := by cases s <;> rfl

theorem checkPss_eq (d : Digests) (hash : Hash) (message : List UInt8) {em : List UInt8}
    {emBits : ℕ} (hem : em.length = divCeil emBits 8) :
    ∃ b, checkPss d hash message em emBits = some b ∧
      (b = true ↔ ∃ sLen, emsaPssVerify d (longMgf1 d) hash message em emBits sLen = true) := by
  have hbits : emBits ≤ divCeil emBits 8 * 8 := le_divCeil_mul (by decide)
  have hunused : 8 * divCeil emBits 8 - emBits < 8 := by
    unfold divCeil
    omega
  unfold checkPss emsaPssVerify
  by_cases hshort : divCeil emBits 8 < len hash + 2
  · refine ⟨false, by simp only [hshort, if_true], ?_⟩
    simp only [Bool.false_eq_true, false_iff]
    rintro ⟨sLen, hverify⟩
    simp only [Bool.and_eq_true, decide_eq_true_eq] at hverify
    omega
  simp only [hshort, if_false]
  generalize hlength : divCeil emBits 8 = emLen at *
  have hlast : em[emLen - 1]? = em.getLast? := by
    rw [List.getLast?_eq_getElem?, hem]
  obtain ⟨trailer, htrailer⟩ : ∃ trailer, em.getLast? = some trailer :=
    ⟨_, List.getLast?_eq_some_getLast (List.ne_nil_of_length_pos (by omega))⟩
  rw [sub, if_pos (by omega : 1 ≤ emLen), Option.bind_some, hlast, htrailer, Option.bind_some]
  by_cases hbc : trailer = 0xbc
  swap
  · rw [if_pos hbc]
    refine ⟨false, rfl, ?_⟩
    simp [hbc]
  have hsplit : splitAt em (emLen - len hash - 1) =
      some (em.take (emLen - len hash - 1), em.drop (emLen - len hash - 1)) :=
    if_pos (by omega)
  have hslice : sliceTo (em.drop (emLen - len hash - 1)) (len hash) =
      some ((em.drop (emLen - len hash - 1)).take (len hash)) :=
    if_pos (by rw [List.length_drop]; omega)
  rw [if_neg (by simp [hbc]), sub, if_pos (by omega), Option.bind_some, sub, if_pos (by omega),
    Option.bind_some, hsplit, Option.bind_some]
  simp only [hslice, Option.bind_some]
  generalize hmasked : em.take (emLen - len hash - 1) = maskedDb
  generalize hh : (em.drop (emLen - len hash - 1)).take (len hash) = h
  have hmaskedLength : maskedDb.length = emLen - len hash - 1 := by
    rw [← hmasked, List.length_take]
    omega
  rw [sub, if_pos (by omega : emBits ≤ 8 * emLen), Option.bind_some]
  generalize hu : 8 * emLen - emBits = unused at *
  obtain ⟨first, hfirst⟩ : ∃ first, maskedDb[0]? = some first :=
    ⟨_, List.getElem?_eq_getElem (by omega)⟩
  -- the octet's highest bits are asked to be zero, when it has more than are used
  have hhigh : ∃ high, (if 0 < unused then
      (sub 8 unused).bind fun shift => maskedDb[0]?.bind fun first => shiftRight first shift
      else some 0) = some high ∧ (high = 0 ↔ first.toNat / 2 ^ (8 - unused) = 0) := by
    by_cases hpos : 0 < unused
    · obtain ⟨c, hc, hzero⟩ := shiftRight_zero_iff first (show 8 - unused < 8 by omega)
      refine ⟨c, ?_, hzero⟩
      rw [if_pos hpos, sub, if_pos (by omega), Option.bind_some, hfirst, Option.bind_some, hc]
    · refine ⟨0, if_neg hpos, ?_⟩
      rw [show unused = 0 by omega]
      exact iff_of_true rfl (Nat.div_eq_of_lt first.toNat_lt)
  obtain ⟨high, hhigh, hzero⟩ := hhigh
  rw [hhigh, Option.bind_some]
  by_cases hclear : high = 0
  swap
  · rw [if_pos hclear]
    refine ⟨false, rfl, ?_⟩
    have hnot : ¬ first.toNat / 2 ^ (8 - unused) = 0 := fun h => hclear (hzero.mpr h)
    simp only [Bool.false_eq_true, false_iff]
    rintro ⟨sLen, hverify⟩
    rw [head?_eq_getElem, hfirst, Option.all_some] at hverify
    simp only [Bool.and_eq_true, decide_eq_true_eq] at hverify
    exact hnot hverify.1.2
  have hmgf := length_mgf1 d hash h maskedDb.length
  have hxor : (xor (mgf1 d hash h maskedDb.length) maskedDb).length = maskedDb.length := by
    rw [xor, List.length_zipWith, hmgf, Nat.min_self]
  have hne : xor (mgf1 d hash h maskedDb.length) maskedDb ≠ [] :=
    List.ne_nil_of_length_pos (by omega)
  rw [if_neg (by simp [hclear]), maskFirst_eq hne hunused, Option.bind_some]
  have hcomm : xor (mgf1 d hash h maskedDb.length) maskedDb =
      xor maskedDb (maskOctets d hash h (emLen - len hash - 1)) := by
    rw [mgf1_eq, hmaskedLength, xor, xor, List.zipWith_comm]
    congr 1
    funext a b
    exact UInt8.xor_comm b a
  rw [hcomm] at hxor ⊢
  generalize hdb : clearLeftmost unused (xor maskedDb (maskOctets d hash h (emLen - len hash - 1)))
    = db
  have hdbLength : db.length = emLen - len hash - 1 := by
    rw [← hdb, length_clearLeftmost, hxor, hmaskedLength]
  obtain ⟨b, hb, hiff⟩ := checkSalt_eq d hash message h db
  refine ⟨b, hb, hiff.trans ?_⟩
  constructor
  · rintro ⟨one, hsalt⟩
    have hlt : one < db.length := by
      by_contra hge
      have := hsalt.marked
      rw [List.getElem?_eq_none (by omega)] at this
      cases this
    refine ⟨emLen - len hash - 2 - one, ?_⟩
    rw [show emLen - len hash - (emLen - len hash - 2 - one) - 2 = one by omega,
      show emLen - len hash - (emLen - len hash - 2 - one) - 1 = one + 1 by omega]
    simp only [Bool.and_eq_true, decide_eq_true_eq]
    refine ⟨⟨⟨by omega, by rw [hbc]⟩, ?_⟩, ?_⟩
    · rw [head?_eq_getElem, hfirst, Option.all_some, decide_eq_true_eq]
      exact hzero.mp hclear
    · simp only [longMgf1, Option.any_some, hdb, Bool.and_eq_true, decide_eq_true_eq]
      exact ⟨⟨hsalt.zeros, hsalt.marked⟩, hsalt.hashed⟩
  · rintro ⟨sLen, hverify⟩
    simp only [longMgf1, Option.any_some, hdb, Bool.and_eq_true, decide_eq_true_eq] at hverify
    obtain ⟨⟨⟨hfits, -⟩, -⟩, ⟨hzeros, hmarked⟩, hhash⟩ := hverify
    refine ⟨emLen - len hash - sLen - 2, hzeros, hmarked, ?_⟩
    rw [show emLen - len hash - sLen - 2 + 1 = emLen - len hash - sLen - 1 by omega]
    exact hhash

/-! ### Signatures -/

/-- Octets of zero before a signature, up to the length of the modulus. -/
def padded (n : ℕ) (signature : List UInt8) : List UInt8 :=
  List.replicate (divCeil (Nat.size n) 8 - signature.length) 0 ++ signature

theorem octets_succ (length x : ℕ) :
    octets (length + 1) x = UInt8.ofNat (x / 256 ^ length) :: octets length (x % 256 ^ length) := rfl

theorem verifyPss_eq (d : Digests) (n e : ℕ) (hash : Hash) (message signature : List UInt8) :
    ∃ b, verifyPss d n e hash message signature = some b ∧ (b = true ↔ ∃ sLen,
      rsassaPssVerify d (longMgf1 d) n e hash message (padded n signature) sLen = true) := by
  unfold verifyPss rsassaPssVerify rsavp1
  by_cases hopen : signature.length ≤ divCeil (Nat.size n) 8 ∧ os2ip signature < n
  swap
  · rw [rsaOpen_none hopen]
    refine ⟨false, rfl, ?_⟩
    simp only [Bool.false_eq_true, false_iff]
    rintro ⟨sLen, hverify⟩
    simp only [padded, os2ip_replicate, List.length_append, List.length_replicate] at hverify
    rw [Bool.and_eq_true, decide_eq_true_eq] at hverify
    by_cases hlt : os2ip signature < n
    · exact hopen ⟨by omega, hlt⟩
    · rw [if_neg hlt] at hverify
      cases hverify.2
  obtain ⟨hlen, hlt⟩ := hopen
  have hpadded : (padded n signature).length = divCeil (Nat.size n) 8 := by
    rw [padded, List.length_append, List.length_replicate]
    omega
  have hos2ip : os2ip (padded n signature) = os2ip signature := os2ip_replicate _ _
  have hx : os2ip signature ^ e % n < 256 ^ divCeil (Nat.size n) 8 :=
    (Nat.mod_lt _ (by omega)).trans (lt_pow_divCeil n)
  have hsize : 0 < Nat.size n := Nat.size_pos.mpr (by omega)
  rw [rsaOpen_some hlen hlt, hos2ip, hpadded, if_pos hlt]
  simp only [decide_true, Bool.true_and, Option.bind_some]
  rw [sub, if_pos (by omega), Option.bind_some]
  generalize os2ip signature ^ e % n = x at hx
  by_cases hshorter : divCeil (Nat.size n - 1) 8 < divCeil (Nat.size n) 8
  · have hk : divCeil (Nat.size n) 8 = divCeil (Nat.size n - 1) 8 + 1 := by
      unfold divCeil at hshorter ⊢
      omega
    rw [if_pos hshorter, hk, octets_succ, List.getElem?_cons_zero, Option.bind_some]
    have hhead : x / 256 ^ divCeil (Nat.size n - 1) 8 < 256 := by
      rw [Nat.div_lt_iff_lt_mul (Nat.pow_pos (by decide)), mul_comm, ← pow_succ, ← hk]
      exact hx
    by_cases hfits : x < 256 ^ divCeil (Nat.size n - 1) 8
    · rw [Nat.div_eq_of_lt hfits, Nat.mod_eq_of_lt hfits, if_neg (by decide), sliceFrom,
        if_pos (by rw [List.length_cons]; omega), Option.bind_some, List.drop_one, List.tail_cons,
        i2osp, if_pos hfits]
      exact checkPss_eq d hash message (length_octets _ _)
    · have hne : UInt8.ofNat (x / 256 ^ divCeil (Nat.size n - 1) 8) ≠ 0 := by
        intro hzero
        have hnat := congrArg UInt8.toNat hzero
        rw [UInt8.toNat_ofNat_of_lt' hhead] at hnat
        exact hfits ((Nat.div_eq_zero_iff_lt (Nat.pow_pos (by decide))).mp hnat)
      rw [if_pos hne, i2osp, if_neg hfits]
      exact ⟨false, rfl, by simp⟩
  · have hk : divCeil (Nat.size n) 8 = divCeil (Nat.size n - 1) 8 := by
      unfold divCeil at hshorter ⊢
      omega
    rw [if_neg hshorter, hk, i2osp, if_pos (hk ▸ hx)]
    exact checkPss_eq d hash message (length_octets _ _)

structure AsStandard (d : Digests) (n e : ℕ) (hash : Hash) (message signature : List UInt8) :
    Prop where
  pkcs1 : verifyPkcs1 d n e hash message signature =
    some (rsassaPkcs1Verify d n e hash message signature)
  pss : ∃ b, verifyPss d n e hash message signature = some b ∧ (b = true ↔
    ∃ sLen, rsassaPssVerify d (standardMgf1 d) n e hash message signature sLen = true)

def maskLength (n : ℕ) (hash : Hash) : ℕ := divCeil (Nat.size n - 1) 8 - len hash - 1

theorem emsaPssVerify_mgf (hash : Hash) (message em : List UInt8) (sLen : ℕ) :
    emsaPssVerify d (standardMgf1 d) hash message em (Nat.size n - 1) sLen =
      (decide (maskLength n hash ≤ 2 ^ 32 * len hash) &&
        emsaPssVerify d (longMgf1 d) hash message em (Nat.size n - 1) sLen) := by
  unfold emsaPssVerify standardMgf1 longMgf1 maskLength
  by_cases hmask : divCeil (Nat.size n - 1) 8 - len hash - 1 ≤ 2 ^ 32 * len hash
  · simp only [hmask, if_true, decide_true, Bool.true_and]
  · simp only [hmask, if_false, decide_false, Bool.false_and, Option.any_none, Bool.and_false]

theorem rsassaPssVerify_mgf (hash : Hash) (message signature : List UInt8) (sLen : ℕ) :
    rsassaPssVerify d (standardMgf1 d) n e hash message signature sLen =
      (decide (maskLength n hash ≤ 2 ^ 32 * len hash) &&
        rsassaPssVerify d (longMgf1 d) n e hash message signature sLen) := by
  unfold rsassaPssVerify
  simp only [emsaPssVerify_mgf]
  cases (rsavp1 n e (os2ip signature)).bind fun m => i2osp m (divCeil (Nat.size n - 1) 8) with
  | none => simp only [Option.any_none, Bool.and_false]
  | some em => simp only [Option.any_some, Bool.and_left_comm]

/-- The code is the standard where the signature is as long as the modulus, or would not be
valid if it were. -/
theorem asStandard_iff (d : Digests) (n e : ℕ) (hash : Hash) (message signature : List UInt8) :
    AsStandard d n e hash message signature ↔
      signature.length = divCeil (Nat.size n) 8 ∧ maskLength n hash ≤ 2 ^ 32 * len hash ∨
        ∀ sLen, rsassaPssVerify d (longMgf1 d) n e hash message (padded n signature) sLen =
          false := by
  obtain ⟨b, hb, hiff⟩ := verifyPss_eq d n e hash message signature
  have hpadded : signature.length = divCeil (Nat.size n) 8 → padded n signature = signature := by
    intro heq
    rw [padded, heq, Nat.sub_self, List.replicate_zero, List.nil_append]
  have hstandard : (∃ sLen,
      rsassaPssVerify d (standardMgf1 d) n e hash message signature sLen = true) ↔
      (signature.length = divCeil (Nat.size n) 8 ∧ maskLength n hash ≤ 2 ^ 32 * len hash) ∧
        ∃ sLen, rsassaPssVerify d (longMgf1 d) n e hash message (padded n signature) sLen = true := by
    constructor
    · rintro ⟨sLen, hverify⟩
      rw [rsassaPssVerify_mgf, Bool.and_eq_true, decide_eq_true_eq] at hverify
      have hlen : signature.length = divCeil (Nat.size n) 8 := by
        have := hverify.2
        unfold rsassaPssVerify at this
        rw [Bool.and_eq_true, decide_eq_true_eq] at this
        exact this.1
      exact ⟨⟨hlen, hverify.1⟩, sLen, (hpadded hlen).symm ▸ hverify.2⟩
    · rintro ⟨⟨hlen, hmask⟩, sLen, hverify⟩
      rw [hpadded hlen] at hverify
      refine ⟨sLen, ?_⟩
      rw [rsassaPssVerify_mgf, hverify, Bool.and_true, decide_eq_true_eq]
      exact hmask
  constructor
  · intro h
    obtain ⟨b', hb', hiff'⟩ := h.pss
    rw [hb, Option.some.injEq] at hb'
    subst hb'
    by_cases hvalid : ∃ sLen,
        rsassaPssVerify d (longMgf1 d) n e hash message (padded n signature) sLen = true
    · exact Or.inl (hstandard.mp (hiff'.mp (hiff.mpr hvalid))).1
    · exact Or.inr fun sLen => by simpa using fun h => hvalid ⟨sLen, h⟩
  · intro h
    refine ⟨verifyPkcs1_eq d n e hash message signature, b, hb, ?_⟩
    rw [hiff, hstandard]
    rcases h with hgood | hinvalid
    · simp only [hgood, and_self, true_and]
    · simp only [hinvalid, Bool.false_eq_true, exists_false, and_false]

/-! ### A short signature -/

/-- The message's hash, without a salt. -/
def unsalted (d : Digests) : List UInt8 :=
  d.digest .sha1 (List.replicate 8 0 ++ d.digest .sha1 [])

/-- An encoded message, one octet shorter than the modulus `2 ^ 176`. -/
def shortSignature (d : Digests) : List UInt8 :=
  (1 ^^^ (maskOctets d .sha1 (unsalted d) 1).headD 0) :: (unsalted d ++ [0xbc])

theorem length_shortSignature (d : Digests) : (shortSignature d).length = 22 := by
  rw [shortSignature, List.length_cons, List.length_append, unsalted, d.length_digest]
  rfl

theorem emsaPssVerify_short (d : Digests) :
    emsaPssVerify d (longMgf1 d) .sha1 [] (shortSignature d) 176 0 = true := by
  have hlength : (unsalted d).length = 20 := d.length_digest _ _
  have hmask : (maskOctets d .sha1 (unsalted d) 1).length = 1 := by
    rw [← mgf1_eq, length_mgf1]
  obtain ⟨x, hx⟩ := List.length_eq_one_iff.mp hmask
  have htake : (unsalted d ++ [0xbc]).take 20 = unsalted d := by
    rw [← hlength, List.take_left]
  have hlast : (shortSignature d).getLast? = some 0xbc := by
    rw [shortSignature, ← List.cons_append, List.getLast?_append, List.getLast?_singleton,
      Option.some_or]
  have hxor : (1 ^^^ x) ^^^ x = 1 := by rw [UInt8.xor_assoc, UInt8.xor_self, UInt8.xor_zero]
  unfold emsaPssVerify
  rw [hlast, shortSignature, hx]
  simp only [show divCeil 176 8 = 22 from rfl, show len .sha1 = 20 from rfl, List.headD_cons,
    List.take_succ_cons, List.take_zero, List.drop_succ_cons, List.drop_zero, htake, longMgf1, hx,
    xor, List.zipWith_cons_cons, List.zipWith_nil_right, hxor, List.head?_cons, Option.all_some,
    Option.any_some]
  have hclear : clearLeftmost (8 * 22 - 176) [1] = [1] := by decide
  have hfirst : (1 ^^^ x).toNat / 2 ^ (8 - (8 * 22 - 176)) = 0 :=
    Nat.div_eq_of_lt (1 ^^^ x).toNat_lt
  rw [hclear, hfirst]
  simp [unsalted]

theorem short_not_asStandard :
    ¬ ∃ d, AsStandard d (2 ^ 176) 1 .sha1 [] (shortSignature d) := by
  rintro ⟨d, h⟩
  have hlength := length_shortSignature d
  have hsize : Nat.size (2 ^ 176) = 177 := Nat.size_pow
  obtain ⟨b, hb, hiff⟩ := verifyPss_eq d (2 ^ 176) 1 .sha1 [] (shortSignature d)
  obtain ⟨b', hb', hiff'⟩ := h.pss
  rw [hb, Option.some.injEq] at hb'
  subst hb'
  have hlt : os2ip (shortSignature d) < 2 ^ 176 := by
    have := os2ip_lt (shortSignature d)
    rwa [hlength, show (256 : ℕ) ^ 22 = 2 ^ 176 by decide] at this
  have hvalid : rsassaPssVerify d (longMgf1 d) (2 ^ 176) 1 .sha1 []
      (padded (2 ^ 176) (shortSignature d)) 0 = true := by
    unfold rsassaPssVerify rsavp1
    have hoctets := octets_os2ip (shortSignature d)
    rw [hlength] at hoctets
    rw [padded, os2ip_replicate, if_pos hlt, pow_one, Nat.mod_eq_of_lt hlt, hsize, hlength]
    simp only [show divCeil (177 - 1) 8 = 22 from rfl, show divCeil 177 8 = 23 from rfl]
    rw [Option.bind_some, i2osp, if_pos (by rwa [show (256 : ℕ) ^ 22 = 2 ^ 176 by decide]),
      hoctets, Option.any_some, emsaPssVerify_short]
    simp [hlength]
  obtain ⟨sLen, hstandard⟩ := hiff'.mp (hiff.mpr ⟨0, hvalid⟩)
  unfold rsassaPssVerify at hstandard
  rw [Bool.and_eq_true, decide_eq_true_eq, hlength, hsize] at hstandard
  exact absurd hstandard.1 (by decide)

end Eunha.RsaSignatures
