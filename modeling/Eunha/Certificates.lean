import Mathlib.Data.Int.Notation
import Eunha.Der

/-!
# X.509 certificates

Names and how they are compared, the extensions a chain is judged by, and what a
certificate says of another: that it could be its issuer, that its key signed it.
The verification of signatures is a parameter.
-/
namespace Eunha.Certificates
open Eunha.Der (Result Tlv)

/-! ### Object identifiers -/

namespace Oids

def sha1Rsa : List ℕ := [1, 2, 840, 113549, 1, 1, 5]
def sha256Rsa : List ℕ := [1, 2, 840, 113549, 1, 1, 11]
def sha384Rsa : List ℕ := [1, 2, 840, 113549, 1, 1, 12]
def sha512Rsa : List ℕ := [1, 2, 840, 113549, 1, 1, 13]
def ecdsaSha1 : List ℕ := [1, 2, 840, 10045, 4, 1]
def ecdsaSha256 : List ℕ := [1, 2, 840, 10045, 4, 3, 2]
def ecdsaSha384 : List ℕ := [1, 2, 840, 10045, 4, 3, 3]
def ecdsaSha512 : List ℕ := [1, 2, 840, 10045, 4, 3, 4]

def subjectKeyIdentifier : List ℕ := [2, 5, 29, 14]
def keyUsage : List ℕ := [2, 5, 29, 15]
def subjectAltName : List ℕ := [2, 5, 29, 17]
def basicConstraints : List ℕ := [2, 5, 29, 19]
def nameConstraints : List ℕ := [2, 5, 29, 30]
def certificatePolicies : List ℕ := [2, 5, 29, 32]
def policyMappings : List ℕ := [2, 5, 29, 33]
def authorityKeyIdentifier : List ℕ := [2, 5, 29, 35]
def policyConstraints : List ℕ := [2, 5, 29, 36]
def extKeyUsage : List ℕ := [2, 5, 29, 37]
def inhibitAnyPolicy : List ℕ := [2, 5, 29, 54]
def netscapeCertType : List ℕ := [2, 16, 840, 1, 113730, 1, 1]
def ipAddrBlocks : List ℕ := [1, 3, 6, 1, 5, 5, 7, 1, 7]
def autonomousSysIds : List ℕ := [1, 3, 6, 1, 5, 5, 7, 1, 8]
def proxyCertInfo : List ℕ := [1, 3, 6, 1, 5, 5, 7, 1, 14]

end Oids

def supportedCritical : List (List ℕ) :=
  [Oids.netscapeCertType, Oids.keyUsage, Oids.subjectAltName, Oids.basicConstraints,
    Oids.certificatePolicies, Oids.extKeyUsage, Oids.ipAddrBlocks, Oids.autonomousSysIds,
    Oids.policyConstraints, Oids.proxyCertInfo, Oids.nameConstraints, Oids.policyMappings,
    Oids.inhibitAnyPolicy]

def maxDepth : ℕ := 100

def kuKeyCertSign : UInt16 := 0x0004

/-! ### The strings of names -/

def replacement : Char := Char.ofNat 0xfffd

/-- A character begun: how many bytes it still needs, the bounds of the next one, and
the bits read so far. -/
structure Begun where
  needed : ℕ
  low : ℕ
  high : ℕ
  bits : ℕ

def startChar (byte : ℕ) : List Char × Option Begun :=
  if byte < 0x80 then ([Char.ofNat byte], none)
  else if 0xc2 ≤ byte ∧ byte ≤ 0xdf then ([], some ⟨1, 0x80, 0xbf, byte - 0xc0⟩)
  else if 0xe0 ≤ byte ∧ byte ≤ 0xef then
    ([], some ⟨2, if byte = 0xe0 then 0xa0 else 0x80, if byte = 0xed then 0x9f else 0xbf,
      byte - 0xe0⟩)
  else if 0xf0 ≤ byte ∧ byte ≤ 0xf4 then
    ([], some ⟨3, if byte = 0xf0 then 0x90 else 0x80, if byte = 0xf4 then 0x8f else 0xbf,
      byte - 0xf0⟩)
  else ([replacement], none)

def nextByte (begun : Option Begun) (byte : ℕ) : List Char × Option Begun :=
  match begun with
  | none => startChar byte
  | some p =>
      if p.low ≤ byte ∧ byte ≤ p.high then
        if p.needed = 1 then ([Char.ofNat (p.bits * 64 + byte % 64)], none)
        else ([], some ⟨p.needed - 1, 0x80, 0xbf, p.bits * 64 + byte % 64⟩)
      else (replacement :: (startChar byte).1, (startChar byte).2)

def utf8LossyFrom (begun : Option Begun) : List UInt8 → List Char
  | [] => if begun.isSome then [replacement] else []
  | byte :: rest =>
      (nextByte begun byte.toNat).1 ++ utf8LossyFrom (nextByte begun byte.toNat).2 rest

/-- `String::from_utf8_lossy`. -/
def utf8Lossy (bytes : List UInt8) : List Char := utf8LossyFrom none bytes

/-- The 16-bit units of the bytes, a missing last byte read as zero. -/
def units : List UInt8 → List ℕ
  | [] => []
  | [a] => [a.toNat * 256]
  | a :: b :: rest => (a.toNat * 256 + b.toNat) :: units rest

/-- `String::from_utf16_lossy`: a surrogate without its other half is replaced. -/
def utf16Lossy : List ℕ → List Char
  | [] => []
  | [unit] => [if 0xd800 ≤ unit ∧ unit < 0xe000 then replacement else Char.ofNat unit]
  | unit :: other :: rest =>
      if unit < 0xd800 ∨ 0xe000 ≤ unit then Char.ofNat unit :: utf16Lossy (other :: rest)
      else if unit < 0xdc00 ∧ 0xdc00 ≤ other ∧ other < 0xe000 then
        Char.ofNat (0x10000 + (unit - 0xd800) * 0x400 + (other - 0xdc00)) :: utf16Lossy rest
      else replacement :: utf16Lossy (other :: rest)

/-- The 32-bit numbers of the bytes, the last one filled up with zeros. -/
def words : List UInt8 → List ℕ
  | [] => []
  | [a] => [a.toNat * 2 ^ 24]
  | [a, b] => [a.toNat * 2 ^ 24 + b.toNat * 2 ^ 16]
  | [a, b, c] => [a.toNat * 2 ^ 24 + b.toNat * 2 ^ 16 + c.toNat * 2 ^ 8]
  | a :: b :: c :: d :: rest =>
      (a.toNat * 2 ^ 24 + b.toNat * 2 ^ 16 + c.toNat * 2 ^ 8 + d.toNat) :: words rest

/-- `char::from_u32`. -/
def charOf (number : ℕ) : Option Char :=
  if number < 0xd800 ∨ 0xe000 ≤ number ∧ number < 0x110000 then some (Char.ofNat number)
  else none

def isAsciiWhitespace (c : Char) : Bool :=
  c = ' ' ∨ c = '\t' ∨ c = '\n' ∨ c = '\r' ∨ c = Char.ofNat 12

/-- `split_ascii_whitespace` joined with single spaces. -/
def collapse (text : List Char) : List Char :=
  [' '].intercalate ((text.splitOnP isAsciiWhitespace).filter (fun part => !part.isEmpty))

def canonicalString (tag : ℕ) (value : List UInt8) : Option (List Char) :=
  let text :=
    if tag = 12 ∨ tag = 19 ∨ tag = 26 ∨ tag = 22 then some (utf8Lossy value)
    else if tag = 20 then some (value.map fun byte => Char.ofNat byte.toNat)
    else if tag = 30 then some (utf16Lossy (units value))
    else if tag = 28 then some ((words value).filterMap charOf)
    else none
  text.map fun text => (collapse text).map Char.toLower

/-! ### Names -/

structure Attribute where
  oid : List UInt8
  tag : ℕ
  value : List UInt8
deriving DecidableEq

structure Name where
  rdns : List (List Attribute)
deriving DecidableEq

/-- An attribute as names are compared: a string in canonical form, anything else as it
was encoded. -/
inductive CanonicalValue where
  | text (text : List Char)
  | encoded (tag : ℕ) (value : List UInt8)
deriving DecidableEq

def Attribute.canonical (a : Attribute) : List UInt8 × CanonicalValue :=
  (a.oid,
    match canonicalString a.tag a.value with
    | some text => .text text
    | none => .encoded a.tag a.value)

def Name.canonical (name : Name) : List (List (List UInt8 × CanonicalValue)) :=
  name.rdns.map fun rdn => rdn.map Attribute.canonical

def Name.sameAs (name other : Name) : Bool := name.canonical == other.canonical

theorem Name.sameAs_iff {name other : Name} :
    name.sameAs other = true ↔ name.canonical = other.canonical := by
  rw [Name.sameAs, beq_iff_eq]

/-! ### Certificates -/

structure Extension where
  oid : List UInt8
  critical : Bool
  value : List UInt8
deriving DecidableEq

structure Certificate (K : Type*) where
  der : List UInt8
  tbs : List UInt8
  tbsSignatureAlgorithm : List UInt8
  signatureAlgorithm : List UInt8
  signatureOid : List UInt8
  signature : List UInt8
  /-- As X.509 numbers it: 2 is v3. -/
  version : ℕ
  serial : List UInt8
  issuer : Name
  subject : Name
  notBefore : ℤ
  notAfter : ℤ
  publicKey : K
  extensions : List Extension
deriving DecidableEq

inductive Hash where
  | sha1
  | sha256
  | sha384
  | sha512
deriving DecidableEq

/-- How the two kinds of key check a signature on some data. -/
structure Verifier (K : Type*) where
  verifyPkcs1 : K → Hash → List UInt8 → List UInt8 → Bool
  verifyEcdsa : K → Hash → List UInt8 → List UInt8 → Bool

namespace Certificate
variable {K : Type*} (cert issuer : Certificate K)

def extension (oid : List ℕ) : Option Extension :=
  cert.extensions.find? fun ext => ext.oid = Der.oid oid

/-- One part of `basicConstraints`: the flag, or the path length. -/
def constraintPart (read : Bool × Option ℕ) (part : Tlv) : Result (Bool × Option ℕ) :=
  if part.isUniversal Der.boolean then part.boolean.map fun ca => (ca, read.2)
  else part.smallUint.map fun pathLen => (read.1, some pathLen)

def basicConstraints : Result (Option (Bool × Option ℕ)) :=
  match cert.extension Oids.basicConstraints with
  | none => .ok none
  | some ext => do
      let parts ← (← Tlv.parse ext.value).sequence
      some <$> parts.foldlM constraintPart (false, none)

/-- The first two bytes as they come. -/
def keyUsage : Result (Option UInt16) :=
  match cert.extension Oids.keyUsage with
  | none => .ok none
  | some ext => do
      let tlv ← Tlv.parse ext.value
      if !tlv.isUniversal Der.bitString || tlv.value.isEmpty then
        Der.invalid "malformed key usage"
      else
        let bits := tlv.value.drop 1
        .ok (some ((bits.getD 0 0).toUInt16 ||| ((bits.getD 1 0).toUInt16 <<< 8)))

def subjectKeyId : Option (List UInt8) := do
  let ext ← cert.extension Oids.subjectKeyIdentifier
  let tlv ← (Tlv.parse ext.value).toOption
  tlv.octets.toOption

/-- The key id and the serial number of `authorityKeyIdentifier`, the last of each. -/
def authorityKeyId : Option (List UInt8) × Option (List UInt8) :=
  match cert.extension Oids.authorityKeyIdentifier with
  | none => (none, none)
  | some ext =>
      match Tlv.parse ext.value >>= Tlv.sequence with
      | .error _ => (none, none)
      | .ok parts =>
          parts.foldl (fun ids part =>
            if part.is Der.classContext 0 then (some part.value, ids.2)
            else if part.is Der.classContext 2 then (ids.1, some part.value)
            else ids) (none, none)

def extensionsValid : Bool :=
  decide ((cert.extensions.map Extension.oid).Nodup) &&
    (match cert.basicConstraints with
      | .error _ => false
      | .ok (some (false, some _)) => false
      | .ok _ => true) &&
    (match cert.keyUsage with
      | .error _ => false
      | .ok _ => true)

/-- The authority key identifier, if any, names this issuer. -/
def akidMatches : Bool :=
  (match cert.authorityKeyId.1, issuer.subjectKeyId with
    | some keyId, some skid => keyId = skid
    | _, _ => true) &&
  (match cert.authorityKeyId.2 with
    | some serial => serial = issuer.serial
    | none => true)

/-- Issuer and subject the same, and the key identifiers agreeing. -/
def selfIssued : Bool := cert.subject.sameAs cert.issuer && cert.akidMatches cert

def forbidsCertSign : Bool :=
  match cert.keyUsage with
  | .ok (some usage) => usage &&& kuKeyCertSign == 0
  | _ => false

/-- Whether `issuer` could have issued this certificate, before its signature is checked. -/
def couldBeIssuedBy : Bool :=
  issuer.subject.sameAs cert.issuer && cert.akidMatches issuer && !issuer.forbidsCertSign

def inValidityPeriod (now : ℤ) : Bool := cert.notBefore ≤ now ∧ now < cert.notAfter

def signedBy (verifier : Verifier K) (key : K) : Bool :=
  let rsa := fun hash => verifier.verifyPkcs1 key hash cert.tbs cert.signature
  let ecdsa := fun hash => verifier.verifyEcdsa key hash cert.tbs cert.signature
  if cert.signatureAlgorithm ≠ cert.tbsSignatureAlgorithm then false
  else if cert.signatureOid = Der.oid Oids.sha1Rsa then rsa .sha1
  else if cert.signatureOid = Der.oid Oids.sha256Rsa then rsa .sha256
  else if cert.signatureOid = Der.oid Oids.sha384Rsa then rsa .sha384
  else if cert.signatureOid = Der.oid Oids.sha512Rsa then rsa .sha512
  else if cert.signatureOid = Der.oid Oids.ecdsaSha1 then ecdsa .sha1
  else if cert.signatureOid = Der.oid Oids.ecdsaSha256 then ecdsa .sha256
  else if cert.signatureOid = Der.oid Oids.ecdsaSha384 then ecdsa .sha384
  else if cert.signatureOid = Der.oid Oids.ecdsaSha512 then ecdsa .sha512
  else false

/-- 0 when not a CA, 1 when `basicConstraints` says it is one, 3 for a self-signed v1
root, 4 when only the key usage allows signing certificates. -/
def checkCa : ℕ :=
  if cert.forbidsCertSign then 0
  else
    match cert.basicConstraints with
    | .ok (some (ca, _)) => if ca then 1 else 0
    | .ok none =>
        if cert.version = 0 ∧ cert.selfIssued then 3
        else
          match cert.keyUsage with
          | .ok (some _) => 4
          | _ => 0
    | .error _ => 0

def unhandledCriticalExtension : Bool :=
  cert.extensions.any fun ext =>
    ext.critical && !supportedCritical.any fun oid => Der.oid oid = ext.oid

/-! ### What a certificate is allowed -/

def KeyMaySign : Prop := ∀ usage, cert.keyUsage = .ok (some usage) → usage &&& kuKeyCertSign ≠ 0

def IsCa : Prop := cert.KeyMaySign ∧ ∃ pathLen, cert.basicConstraints = .ok (some (true, pathLen))

def IsLegacyRoot : Prop :=
  cert.KeyMaySign ∧ cert.basicConstraints = .ok none ∧
    (cert.version = 0 ∧ cert.selfIssued = true ∨ ∃ usage, cert.keyUsage = .ok (some usage))

variable {cert}

theorem forbidsCertSign_eq_false_iff : cert.forbidsCertSign = false ↔ cert.KeyMaySign := by
  unfold forbidsCertSign KeyMaySign
  cases h : cert.keyUsage with
  | error why => exact ⟨(fun _ _ h => nomatch h), (fun _ => rfl)⟩
  | ok found =>
      cases found with
      | none => exact ⟨(fun _ _ h => nomatch h), (fun _ => rfl)⟩
      | some usage =>
          rw [beq_eq_false_iff_ne]
          exact ⟨fun hne _ h => by cases h; exact hne, fun h => h usage rfl⟩

theorem checkCa_eq_one_iff : cert.checkCa = 1 ↔ cert.IsCa := by
  unfold checkCa IsCa
  rw [← forbidsCertSign_eq_false_iff]
  cases hsign : cert.forbidsCertSign with
  | true => simp
  | false =>
      cases h : cert.basicConstraints with
      | error why => simp
      | ok found =>
          rcases found with _ | ⟨ca, pathLen⟩
          · simp only [Bool.false_eq_true, if_false]
            split
            · simp
            · split <;> simp
          · cases ca <;> simp

theorem checkCa_ne_zero_iff : cert.checkCa ≠ 0 ↔ cert.IsCa ∨ cert.IsLegacyRoot := by
  unfold checkCa IsCa IsLegacyRoot
  rw [← forbidsCertSign_eq_false_iff]
  cases hsign : cert.forbidsCertSign with
  | true => simp
  | false =>
      cases h : cert.basicConstraints with
      | error why => simp
      | ok found =>
          rcases found with _ | ⟨ca, pathLen⟩
          · by_cases hroot : cert.version = 0 ∧ cert.selfIssued = true
            · simp [hroot]
            · cases husage : cert.keyUsage with
              | error why => simp [hroot]
              | ok found => cases found <;> simp [hroot]
          · cases ca <;> simp

theorem couldBeIssuedBy_named (h : cert.couldBeIssuedBy issuer = true) :
    issuer.subject.canonical = cert.issuer.canonical := by
  unfold couldBeIssuedBy at h
  rw [Bool.and_eq_true, Bool.and_eq_true] at h
  exact Name.sameAs_iff.1 h.1.1

theorem selfIssued_named (h : cert.selfIssued = true) :
    cert.subject.canonical = cert.issuer.canonical := by
  unfold selfIssued at h
  rw [Bool.and_eq_true] at h
  exact Name.sameAs_iff.1 h.1

end Certificate
end Eunha.Certificates
