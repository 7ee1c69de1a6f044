import Eunha.SignedIdsReadBack
import Eunha.Sanitizer
import Mathlib

/-!
# Blocked addresses

A block names a network, a severity and when it ends. Networks without access are kept in
memory as ranges, read from their text, and tested with shifts and masks; for signing up the
database is asked. An IPv4 address written in IPv6 is taken by a range for the IPv4 address it
is, and by the database for an IPv6 address.
-/
namespace Eunha.IpBlocks
open SignedIds (Text splitOnce)

/-! ### Addresses and ranges -/

inductive IpAddr where
  | v4 (bits : BitVec 32)
  | v6 (bits : BitVec 128)
  deriving DecidableEq

def IpAddr.isIpv4 : IpAddr → Bool
  | .v4 _ => true
  | .v6 _ => false

def IpAddr.maxBits (a : IpAddr) : ℕ := if a.isIpv4 then 32 else 128

def toIpv4Mapped (v6 : BitVec 128) : Option (BitVec 32) :=
  if v6 >>> 32 = 0xFFFF#128 then some (v6.setWidth 32) else none

/-- An address range: an address and how many leading bits of it count. -/
structure Cidr where
  addr : IpAddr
  prefixLen : ℕ
  deriving DecidableEq

/-- `u32::MAX.checked_shl(n).unwrap_or(0)`, at any width. -/
def checkedMask (w n : ℕ) : BitVec w := if n < w then BitVec.allOnes w <<< n else 0

def Cidr.contains (c : Cidr) (ip : IpAddr) : Bool :=
  let ip := match c.addr, ip with
    | .v4 _, .v6 v6 => (toIpv4Mapped v6).map IpAddr.v4
    | _, _ => some ip
  match c.addr, ip with
  | .v4 net, some (.v4 ip) =>
      let mask := checkedMask 32 (32 - c.prefixLen)
      net &&& mask = ip &&& mask
  | .v6 net, some (.v6 ip) =>
      let mask := checkedMask 128 (128 - c.prefixLen)
      net &&& mask = ip &&& mask
  | _, _ => false

/-! ### Texts -/

/-- What writes and reads the text of addresses. -/
structure Env where
  /-- `parse::<IpAddr>` -/
  parse : Text → Option IpAddr
  /-- `to_string` -/
  toText : IpAddr → Text
  /-- `host` of an `inet` of the database. -/
  host : IpAddr → Text
  /-- The cast to `inet` of the text of one address. -/
  inet : Text → Option IpAddr

def afterPlus : Text → Text
  | '+' :: digits => digits
  | digits => digits

/-- `parse::<u8>` -/
def parseU8 (text : Text) : Option ℕ :=
  let digits := afterPlus text
  let n := Nat.ofDigitChars 10 digits 0
  if !digits.isEmpty && digits.all Char.isDigit && decide (n < 256) then some n else none

def Cidr.parse (env : Env) (s : Text) : Option Cidr :=
  let parts := match splitOnce '/' (Sanitizer.trim s) with
    | some (a, p) => (env.parse a).bind fun addr => (parseU8 p).map fun n => (addr, some n)
    | none => (env.parse (Sanitizer.trim s)).map fun addr => (addr, none)
  parts.map fun part => ⟨part.1, min (part.2.getD part.1.maxBits) part.1.maxBits⟩

/-! ### Blocks -/

/-- An `inet`: its masklen is within its family. -/
structure Inet where
  addr : IpAddr
  masklen : ℕ
  masklen_le : masklen ≤ addr.maxBits

/-! `ip_severity` -/

def signUpRequiresApprovalSeverity : ℤ := 5000
def signUpBlockSeverity : ℤ := 5500
def noAccessSeverity : ℤ := 9999

structure IpBlock where
  ip : Inet
  severity : ℤ
  expiresAt : Option ℕ

def IpBlock.unexpired (b : IpBlock) (now : ℕ) : Bool := b.expiresAt.all fun t => now < t

/-- `ip <<= net` for one address: the families are one, and so are the leading bits. -/
def containedIn (ip : IpAddr) (net : Inet) : Bool :=
  match ip, net.addr with
  | .v4 a, .v4 n => a.toNat / 2 ^ (32 - net.masklen) = n.toNat / 2 ^ (32 - net.masklen)
  | .v6 a, .v6 n => a.toNat / 2 ^ (128 - net.masklen) = n.toNat / 2 ^ (128 - net.masklen)
  | _, _ => false

def blockedWith (env : Env) (rows : List IpBlock) (now : ℕ) (ip : IpAddr) (severity : ℤ) :
    Bool :=
  match env.inet (env.toText ip) with
  | none => false
  | some address =>
      rows.any fun b => b.severity = severity && containedIn address b.ip && b.unexpired now

def signUpBlocked (env : Env) (rows : List IpBlock) (now : ℕ) (ip : Option IpAddr) : Bool :=
  match ip with
  | some ip => blockedWith env rows now ip signUpBlockSeverity
  | none => false

def signUpRequiresApproval (env : Env) (rows : List IpBlock) (now : ℕ) (ip : Option IpAddr) :
    Bool :=
  match ip with
  | some ip => blockedWith env rows now ip signUpRequiresApprovalSeverity
  | none => false

def rangeText (env : Env) (net : Inet) : Text :=
  env.host net.addr ++ '/' :: Nat.toDigits 10 net.masklen

/-- The ranges of `no_access`. -/
def ranges (env : Env) (rows : List IpBlock) (now : ℕ) : List Cidr :=
  (rows.filter fun b => b.severity = noAccessSeverity && b.unexpired now).filterMap fun b =>
    Cidr.parse env (rangeText env b.ip)

def noAccess (env : Env) (rows : List IpBlock) (now : ℕ) (ip : IpAddr) : Bool :=
  (ranges env rows now).any (·.contains ip)

/-- `deny_blocked`: whether the request is refused. -/
def denyBlocked (env : Env) (rows : List IpBlock) (now : ℕ) (ip : Option IpAddr) : Bool :=
  ip.any (noAccess env rows now)

/-! ### Masks -/

theorem toNat_div_eq_iff {w : ℕ} (a b : BitVec w) (k : ℕ) :
    a.toNat / 2 ^ k = b.toNat / 2 ^ k ↔ ∀ i, k ≤ i → a.getLsbD i = b.getLsbD i := by
  rw [← Nat.shiftRight_eq_div_pow, ← Nat.shiftRight_eq_div_pow, ← BitVec.toNat_ushiftRight,
    ← BitVec.toNat_ushiftRight, BitVec.toNat_inj]
  constructor
  · intro h i hi
    have hbit := congrArg (fun x : BitVec w => x.getLsbD (i - k)) h
    simpa only [BitVec.getLsbD_ushiftRight, Nat.add_sub_cancel' hi] using hbit
  · intro h
    apply BitVec.eq_of_getLsbD_eq
    intro i _
    rw [BitVec.getLsbD_ushiftRight, BitVec.getLsbD_ushiftRight]
    exact h (k + i) (Nat.le_add_right k i)

theorem and_checkedMask_eq_iff {w : ℕ} (a b : BitVec w) {k : ℕ} (hk : k ≤ w) :
    a &&& checkedMask w k = b &&& checkedMask w k ↔ a.toNat / 2 ^ k = b.toNat / 2 ^ k := by
  rw [toNat_div_eq_iff]
  unfold checkedMask
  by_cases hlt : k < w
  · rw [if_pos hlt]
    constructor
    · intro h i hi
      by_cases hw : i < w
      · have hbit := congrArg (fun x : BitVec w => x.getLsbD i) h
        have hmask : (BitVec.allOnes w <<< k).getLsbD i = true := by
          rw [BitVec.getLsbD_shiftLeft, BitVec.getLsbD_allOnes]
          simp only [hw, Nat.not_lt.mpr hi, decide_true, decide_false, Bool.not_false,
            Bool.true_and, decide_eq_true_eq]
          omega
        simpa only [BitVec.getLsbD_and, hmask, Bool.and_true] using hbit
      · rw [BitVec.getLsbD_of_ge _ _ (Nat.le_of_not_lt hw),
          BitVec.getLsbD_of_ge _ _ (Nat.le_of_not_lt hw)]
    · intro h
      apply BitVec.eq_of_getLsbD_eq
      intro i _
      rw [BitVec.getLsbD_and, BitVec.getLsbD_and, BitVec.getLsbD_shiftLeft]
      by_cases hi : k ≤ i
      · rw [h i hi]
      · simp [Nat.lt_of_not_le hi]
  · have hkw : k = w := Nat.le_antisymm hk (Nat.le_of_not_lt hlt)
    rw [if_neg hlt]
    refine iff_of_true (by simp) ?_
    intro i hi
    rw [BitVec.getLsbD_of_ge _ _ (hkw ▸ hi), BitVec.getLsbD_of_ge _ _ (hkw ▸ hi)]

/-! ### Ranges read from their text -/

structure ReadBack (env : Env) (a : IpAddr) : Prop where
  parse : env.parse (env.host a) = some a
  slash : '/' ∉ env.host a
  blank : ∀ c ∈ env.host a, Sanitizer.isWhitespace c = false

theorem parseU8_toDigits {n : ℕ} (hn : n < 256) : parseU8 (Nat.toDigits 10 n) = some n := by
  have hdigits : (Nat.toDigits 10 n).all Char.isDigit = true :=
    List.all_eq_true.mpr fun c hc => SignedIds.isDigit_of_mem_toDigits hc
  have hsign : afterPlus (Nat.toDigits 10 n) = Nat.toDigits 10 n := by
    unfold afterPlus
    split
    · next digits heq =>
        have : '+'.isDigit = true := SignedIds.isDigit_of_mem_toDigits (n := n) (by simp [heq])
        cases this
    · rfl
  unfold parseU8
  simp only [hsign, hdigits, Nat.ofDigitChars_ten_toDigits, hn, decide_true, Bool.and_true]
  rw [List.isEmpty_eq_false_iff.mpr Nat.toDigits_ne_nil]
  rfl

theorem trim_eq {text : Text} (h : ∀ c ∈ text, Sanitizer.isWhitespace c = false) :
    Sanitizer.trim text = text := by
  have hdrop : ∀ t : Text, (∀ c ∈ t, Sanitizer.isWhitespace c = false) →
      t.dropWhile Sanitizer.isWhitespace = t := by
    intro t ht
    cases t with
    | nil => rfl
    | cons c t => rw [List.dropWhile_cons, ht c List.mem_cons_self, if_neg (by decide)]
  unfold Sanitizer.trim
  rw [hdrop text h, hdrop text.reverse fun c hc => h c (List.mem_reverse.mp hc), List.reverse_reverse]

theorem isWhitespace_of_isDigit {c : Char} (h : c.isDigit = true) :
    Sanitizer.isWhitespace c = false := by
  have hne : ∀ d : Char, d.isDigit = false → decide (c = d) = false := by
    rintro d hd
    refine decide_eq_false ?_
    rintro rfl
    rw [h] at hd
    cases hd
  have hlow : 48 ≤ c.toNat ∧ c.toNat ≤ 57 := by
    simpa [Char.isDigit, UInt32.le_iff_toNat_le] using h
  have hcontrol : decide (c ≤ '\r') = false := by
    refine decide_eq_false fun hle => ?_
    have : c.toNat ≤ 13 := hle
    omega
  have hspaces : decide ('\u2000' ≤ c) = false := by
    refine decide_eq_false fun hle => ?_
    have : 0x2000 ≤ c.toNat := hle
    omega
  unfold Sanitizer.isWhitespace
  rw [hcontrol, hspaces]
  simp only [hne _ (by decide : ' '.isDigit = false), hne _ (by decide : '\u0085'.isDigit = false),
    hne _ (by decide : '\u00a0'.isDigit = false), hne _ (by decide : '\u1680'.isDigit = false),
    hne _ (by decide : '\u2028'.isDigit = false), hne _ (by decide : '\u2029'.isDigit = false),
    hne _ (by decide : '\u202f'.isDigit = false), hne _ (by decide : '\u205f'.isDigit = false),
    hne _ (by decide : '\u3000'.isDigit = false), Bool.and_false, Bool.false_and, Bool.or_false]

theorem parse_rangeText {env : Env} {net : Inet} (h : ReadBack env net.addr) :
    Cidr.parse env (rangeText env net) = some ⟨net.addr, net.masklen⟩ := by
  have hmax : net.addr.maxBits ≤ 128 := by
    unfold IpAddr.maxBits
    split_ifs <;> omega
  have htrim : Sanitizer.trim (rangeText env net) = rangeText env net := by
    apply trim_eq
    intro c hc
    rcases List.mem_append.mp hc with hc | hc
    · exact h.blank c hc
    · rcases List.mem_cons.mp hc with rfl | hc
      · decide
      · exact isWhitespace_of_isDigit (SignedIds.isDigit_of_mem_toDigits hc)
  unfold Cidr.parse
  rw [htrim, rangeText, SignedIds.splitOnce_append h.slash]
  have hlen := net.masklen_le
  simp only [h.parse, parseU8_toDigits (show net.masklen < 256 by omega), Option.bind_some,
    Option.map_some, Option.getD_some, Nat.min_eq_left hlen]

/-! ### The two tests -/

/-- The address is an IPv4 one written in IPv6, within an IPv4 network. -/
def MappedInto (ip : IpAddr) (net : Inet) : Prop :=
  ∃ v6 v4, ip = .v6 v6 ∧ toIpv4Mapped v6 = some v4 ∧ containedIn (.v4 v4) net = true

/-- What a range holds are the addresses the database takes to be in the network, and the
IPv4 ones among them written in IPv6. -/
theorem contains_iff (net : Inet) (ip : IpAddr) :
    (Cidr.mk net.addr net.masklen).contains ip = true ↔
      containedIn ip net = true ∨ MappedInto ip net := by
  have hlen := net.masklen_le
  cases hnet : net.addr with
  | v4 n =>
      rw [hnet] at hlen
      have hk : 32 - net.masklen ≤ 32 := Nat.sub_le _ _
      cases ip with
      | v4 a =>
          have hnot : ¬ MappedInto (.v4 a) net := by
            rintro ⟨v6, v4, heq, -⟩
            cases heq
          simp only [Cidr.contains, containedIn, hnet, decide_eq_true_eq, hnot, or_false]
          rw [and_checkedMask_eq_iff n a hk]
          exact eq_comm
      | v6 a =>
          have hin : containedIn (.v6 a) net = false := by simp only [containedIn, hnet]
          simp only [Cidr.contains, hin, MappedInto, Bool.false_eq_true, false_or]
          cases hmap : toIpv4Mapped a with
          | none =>
              simp only [Option.map_none, Bool.false_eq_true, false_iff]
              rintro ⟨v6, v4, heq, hv4, -⟩
              cases heq
              rw [hmap] at hv4
              cases hv4
          | some m =>
              simp only [Option.map_some, decide_eq_true_eq]
              rw [and_checkedMask_eq_iff n m hk]
              constructor
              · intro h
                exact ⟨a, m, rfl, hmap, by simpa only [containedIn, hnet, decide_eq_true_eq]
                  using h.symm⟩
              · rintro ⟨v6, v4, heq, hv4, hin⟩
                cases heq
                rw [hmap] at hv4
                cases hv4
                simp only [containedIn, hnet, decide_eq_true_eq] at hin
                exact hin.symm
  | v6 n =>
      have hk : 128 - net.masklen ≤ 128 := Nat.sub_le _ _
      have hnot : ¬ MappedInto ip net := by
        rintro ⟨v6, v4, -, -, hin⟩
        simp only [containedIn, hnet, Bool.false_eq_true] at hin
      cases ip with
      | v4 a => simp only [Cidr.contains, containedIn, hnet, hnot, or_false]
      | v6 a =>
          simp only [Cidr.contains, containedIn, hnet, decide_eq_true_eq, hnot, or_false]
          rw [and_checkedMask_eq_iff n a hk]
          exact eq_comm

def CastBack (env : Env) (ip : IpAddr) : Prop := env.inet (env.toText ip) = some ip

theorem noAccess_one {env : Env} {net : Inet} (h : ReadBack env net.addr) {expiresAt : Option ℕ}
    {now : ℕ} (hexpires : (IpBlock.mk net noAccessSeverity expiresAt).unexpired now = true)
    (ip : IpAddr) :
    noAccess env [⟨net, noAccessSeverity, expiresAt⟩] now ip =
      (Cidr.mk net.addr net.masklen).contains ip := by
  simp [noAccess, ranges, hexpires, parse_rangeText h]

theorem blockedWith_one {env : Env} {ip : IpAddr} (h : CastBack env ip) (net : Inet)
    {severity : ℤ} {expiresAt : Option ℕ} {now : ℕ}
    (hexpires : (IpBlock.mk net severity expiresAt).unexpired now = true) :
    blockedWith env [⟨net, severity, expiresAt⟩] now ip severity = containedIn ip net := by
  unfold blockedWith
  rw [h]
  simp [hexpires]

/-- The blocks cover the same addresses whatever their severity, but for IPv4 addresses that
are written in IPv6. -/
theorem covers_same_iff (env : Env) (rows : List IpBlock) (now : ℕ) (ip : IpAddr)
    (hread : ∀ b ∈ rows, ReadBack env b.ip.addr) (hcast : CastBack env ip) :
    (∀ b ∈ rows, b.unexpired now = true →
      (denyBlocked env [{ b with severity := noAccessSeverity }] now (some ip) =
        signUpBlocked env [{ b with severity := signUpBlockSeverity }] now (some ip)) ∧
      (denyBlocked env [{ b with severity := noAccessSeverity }] now (some ip) =
        signUpRequiresApproval env [{ b with severity := signUpRequiresApprovalSeverity }] now
          (some ip))) ↔
      ∀ b ∈ rows, b.unexpired now = true → ¬ MappedInto ip b.ip := by
  have hone : ∀ b ∈ rows, b.unexpired now = true →
      ((denyBlocked env [{ b with severity := noAccessSeverity }] now (some ip) =
        signUpBlocked env [{ b with severity := signUpBlockSeverity }] now (some ip)) ∧
      (denyBlocked env [{ b with severity := noAccessSeverity }] now (some ip) =
        signUpRequiresApproval env [{ b with severity := signUpRequiresApprovalSeverity }] now
          (some ip)) ↔ ¬ MappedInto ip b.ip) := by
    intro b hb hexpires
    have hdeny : denyBlocked env [{ b with severity := noAccessSeverity }] now (some ip) =
        (Cidr.mk b.ip.addr b.ip.masklen).contains ip :=
      noAccess_one (hread b hb) hexpires ip
    have hblocked : signUpBlocked env [{ b with severity := signUpBlockSeverity }] now (some ip) =
        containedIn ip b.ip := blockedWith_one hcast b.ip hexpires
    have happroval : signUpRequiresApproval env
        [{ b with severity := signUpRequiresApprovalSeverity }] now (some ip) =
        containedIn ip b.ip := blockedWith_one hcast b.ip hexpires
    rw [hdeny, hblocked, happroval, and_self, Bool.eq_iff_iff, contains_iff]
    constructor
    · intro h hmapped
      have hboth := h.mp (Or.inr hmapped)
      obtain ⟨v6, v4, rfl, -, hin⟩ := hmapped
      cases hnet : b.ip.addr with
      | v4 n => simp only [containedIn, hnet, Bool.false_eq_true] at hboth
      | v6 n => simp only [containedIn, hnet, Bool.false_eq_true] at hin
    · intro h
      simp only [h, or_false]
  constructor
  · intro h b hb hexpires
    exact (hone b hb hexpires).mp (h b hb hexpires)
  · intro h b hb hexpires
    exact (hone b hb hexpires).mpr (h b hb hexpires)

/-! ### Dotted addresses -/

def dotted (a : BitVec 32) : Text :=
  ['.'].intercalate ([24, 16, 8, 0].map fun k => Nat.toDigits 10 (a.toNat / 2 ^ k % 256))

def readDotted (text : Text) : Option (BitVec 32) :=
  match (text.splitOnP (· = '.')).mapM parseU8 with
  | some [a, b, c, d] => some (BitVec.ofNat 32 (((a * 256 + b) * 256 + c) * 256 + d))
  | _ => none

/-- Texts of IPv4 addresses, and of those written in IPv6. -/
def dottedEnv : Env where
  parse := read
  toText := write
  host := write
  inet := read
where
  write : IpAddr → Text
    | .v4 a => dotted a
    | .v6 a => "::ffff:".toList ++ dotted (a.setWidth 32)
  read (text : Text) : Option IpAddr :=
    match SignedIds.stripPrefix "::ffff:".toList text with
    | some text => (readDotted text).map fun a => .v6 (0xFFFF#96 ++ a)
    | none => (readDotted text).map .v4

/-- 192.0.2.0/24 -/
def testNet : Inet where
  addr := .v4 0xC0000200
  masklen := 24
  masklen_le := by decide

def testBlock : IpBlock where
  ip := testNet
  severity := noAccessSeverity
  expiresAt := none

example : Cidr.parse dottedEnv "192.0.2.0/24".toList = some ⟨.v4 0xC0000200, 24⟩ := by
  decide +kernel

theorem testNet_readBack : ReadBack dottedEnv testNet.addr := by
  have htext : dottedEnv.host testNet.addr = ['1', '9', '2', '.', '0', '.', '2', '.', '0'] := by
    decide +kernel
  refine ⟨by decide +kernel, ?_, ?_⟩
  · rw [htext]
    decide
  · rw [htext]
    intro c hc
    simp only [List.mem_cons, List.not_mem_nil, or_false] at hc
    rcases hc with rfl | rfl | rfl | rfl | rfl | rfl | rfl | rfl | rfl <;> decide

theorem covers_same_v4 :
    (denyBlocked dottedEnv [{ testBlock with severity := noAccessSeverity }] 0
        (some (.v4 0xC0000209)) =
      signUpBlocked dottedEnv [{ testBlock with severity := signUpBlockSeverity }] 0
        (some (.v4 0xC0000209))) ∧
    (denyBlocked dottedEnv [{ testBlock with severity := noAccessSeverity }] 0
        (some (.v4 0xC0000209)) =
      signUpRequiresApproval dottedEnv
        [{ testBlock with severity := signUpRequiresApprovalSeverity }] 0
        (some (.v4 0xC0000209))) :=
  (covers_same_iff dottedEnv [testBlock] 0 (.v4 0xC0000209)
    (fun _ hb => List.mem_singleton.mp hb ▸ testNet_readBack)
    (by unfold CastBack; decide +kernel)).mpr
    (fun _ _ _ hmapped => by obtain ⟨v6, v4, heq, -⟩ := hmapped; cases heq)
    testBlock (List.mem_singleton.mpr rfl) rfl

/-- `::ffff:192.0.2.9` has no access, and may sign up. -/
theorem mapped_not_covered :
    denyBlocked dottedEnv [{ testBlock with severity := noAccessSeverity }] 0
        (some (.v6 (0xFFFF#96 ++ 0xC0000209#32))) = true ∧
      signUpBlocked dottedEnv [{ testBlock with severity := signUpBlockSeverity }] 0
        (some (.v6 (0xFFFF#96 ++ 0xC0000209#32))) = false ∧
      dottedEnv.inet (dottedEnv.toText (.v6 (0xFFFF#96 ++ 0xC0000209#32))) =
        some (.v6 (0xFFFF#96 ++ 0xC0000209#32)) := by
  decide +kernel

end Eunha.IpBlocks
