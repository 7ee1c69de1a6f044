import Mathlib.Data.List.Chain
import Eunha.Certificates

/-!
# Certificate chains

A chain grows from the leaf by the names alone, trusted certificates first, until it
reaches a self-issued one; then each of its certificates is judged. An answer is a chain
from the leaf to a trusted root, but for a self-issued leaf: it gives way to a trusted
certificate of its name, and its own signature is never looked at.
-/
namespace Eunha.CertificateChains
open Eunha.Certificates
open Eunha.Der (Result invalid)
variable {K : Type}

/-! ### Growing the chain -/

def findIssuer (cert : Certificate K) (candidates : List (Certificate K)) (now : ℤ) :
    Option (Certificate K) :=
  let candidates := candidates.filter fun c => c.der != cert.der && cert.couldBeIssuedBy c
  (candidates.find? fun c => c.inValidityPeriod now).or candidates.head?

inductive Turn (K : Type) where
  | grown (below : List (Certificate K)) (current : Certificate K)
  | built (chain : List (Certificate K))
  | refused (why : String)

section
variable (untrusted trusted : List (Certificate K)) (now : ℤ)

def remaining (chain : List (Certificate K)) : List (Certificate K) :=
  untrusted.filter fun c => !chain.any fun inChain => inChain.der == c.der

/-- One turn: the chain is `below` with `current` at its end. -/
def turn (below : List (Certificate K)) (current : Certificate K) : Turn K :=
  if below.length + 1 > maxDepth then .refused "certificate chain is too long"
  else if current.selfIssued then
    if trusted.any fun t => t.der == current.der then .built (below ++ [current])
    else
      -- An untrusted copy of a root gives way to the trusted one.
      match (findIssuer current trusted now).filter Certificate.selfIssued with
      | some root => .built (below ++ [root])
      | none => .refused "certificate chain ends in an untrusted self-signed certificate"
  else
    match (findIssuer current trusted now).or
        (findIssuer current (remaining untrusted (below ++ [current])) now) with
    | some issuer => .grown (below ++ [current]) issuer
    | none => .refused "unable to get the issuer certificate"

theorem turn_grown {below below' : List (Certificate K)} {current issuer : Certificate K}
    (h : turn untrusted trusted now below current = .grown below' issuer) :
    below' = below ++ [current] ∧ below.length < maxDepth ∧
      (findIssuer current trusted now = some issuer ∨
        findIssuer current (remaining untrusted (below ++ [current])) now = some issuer) := by
  unfold turn at h
  split at h
  · exact nomatch h
  · split at h
    · split at h
      · exact nomatch h
      · split at h <;> exact nomatch h
    · split at h
      · rename_i found hfound
        obtain ⟨rfl, rfl⟩ := Turn.grown.inj h
        refine ⟨rfl, by omega, ?_⟩
        exact (Option.or_eq_some_iff.1 hfound).imp_right And.right
      · exact nomatch h

theorem turn_built {below chain : List (Certificate K)} {current : Certificate K}
    (h : turn untrusted trusted now below current = .built chain) :
    current.selfIssued = true ∧
      ((∃ t ∈ trusted, t.der = current.der) ∧ chain = below ++ [current] ∨
        (∀ t ∈ trusted, t.der ≠ current.der) ∧ ∃ root, chain = below ++ [root] ∧
          findIssuer current trusted now = some root ∧ root.selfIssued = true) := by
  unfold turn at h
  split at h
  · exact nomatch h
  · split at h
    · rename_i hself
      refine ⟨hself, ?_⟩
      split at h
      · rename_i hany
        obtain ⟨t, ht, heq⟩ := List.any_eq_true.1 hany
        exact Or.inl ⟨⟨t, ht, beq_iff_eq.1 heq⟩, (Turn.built.inj h).symm⟩
      · rename_i hnone
        split at h
        · rename_i root hroot
          obtain ⟨hfound, hself⟩ := Option.filter_eq_some_iff.1 hroot
          refine Or.inr ⟨?_, root, (Turn.built.inj h).symm, hfound, hself⟩
          intro t ht heq
          exact hnone (List.any_eq_true.2 ⟨t, ht, beq_iff_eq.2 heq⟩)
        · exact nomatch h
    · split at h <;> exact nomatch h

def build (below : List (Certificate K)) (current : Certificate K) :
    Result (List (Certificate K)) :=
  match _h : turn untrusted trusted now below current with
  | .grown below current => build below current
  | .built chain => .ok chain
  | .refused why => invalid why
termination_by maxDepth - below.length
decreasing_by
  obtain ⟨rfl, hlength, -⟩ := turn_grown untrusted trusted now _h
  rw [List.length_append, List.length_singleton]
  omega

end

/-! ### Judging the chain -/

section
variable (verifier : Verifier K) (now : ℤ)

def ensure (condition : Bool) (why : String) : Result Unit :=
  if condition then .ok () else invalid why

theorem ensure_bind_ok_iff {α : Type} {condition : Bool} {why : String} {next : Result α}
    {a : α} : (do ensure condition why; next) = .ok a ↔ condition = true ∧ next = .ok a := by
  cases condition with
  | false => exact ⟨(fun h => nomatch h), (fun h => nomatch h.1)⟩
  | true => exact ⟨(fun h => ⟨rfl, h⟩), And.right⟩

/-- The certificate above another may sign it: a CA, or at the end of the chain whatever
is not refused as one. -/
def isIssuer (i : ℕ) (last : Bool) (cert : Certificate K) : Bool :=
  i == 0 || !(cert.checkCa == 0 || (!last && cert.checkCa != 1))

def pathLenHolds (i pathLen : ℕ) (cert : Certificate K) : Bool :=
  match i, cert.basicConstraints with
  | _ + 2, .ok (some (_, some max)) => !(max < pathLen)
  | _, _ => true

def counted (i pathLen : ℕ) (cert : Certificate K) : ℕ :=
  if 0 < i ∧ cert.subject.sameAs cert.issuer = false then pathLen + 1 else pathLen

def signatureHolds (cert : Certificate K) : Option (Certificate K) → Bool
  | none => true
  | some issuer => cert.signedBy verifier issuer.publicKey

/-- The loop over the chain, from its `i`th certificate on. -/
def judge (i pathLen : ℕ) : List (Certificate K) → Result Unit
  | [] => .ok ()
  | cert :: above => do
      ensure (cert.inValidityPeriod now) "certificate is not within its validity period"
      ensure cert.extensionsValid "certificate has an invalid extension"
      ensure (!cert.unhandledCriticalExtension)
        "certificate has an unhandled critical extension"
      ensure (isIssuer i above.isEmpty cert) "issuer is not a CA"
      ensure (pathLenHolds i pathLen cert) "path length constraint exceeded"
      ensure (signatureHolds verifier cert above.head?) "certificate signature does not verify"
      judge (i + 1) (counted i pathLen cert) above

def verifyChain (leaf : Certificate K) (untrusted trusted : List (Certificate K)) :
    Result (List (Certificate K)) := do
  let chain ← build untrusted trusted now [] leaf
  judge verifier now 0 0 chain
  .ok chain

/-- `valid_certificate_chain`: one certificate that is itself a root needs no chain. -/
def validCertificateChain (certificates roots : List (Certificate K)) : Result Unit :=
  match certificates with
  | [] => invalid "no attestation certificate"
  | leaf :: others =>
      if others.isEmpty && roots.any (fun r => r.der == leaf.der) then .ok ()
      else (fun _ => ()) <$> verifyChain verifier now leaf (leaf :: others) roots

end

/-! ### What an answer should be -/

/-- The certificates below an issuer that count against its path length: those between
the leaf and it that are not issued to themselves. -/
def intermediates (below : List (Certificate K)) : ℕ :=
  below.tail.countP fun c => !c.subject.sameAs c.issuer

def Signed (verifier : Verifier K) (cert issuer : Certificate K) : Prop :=
  cert.signedBy verifier issuer.publicKey = true

def Named (cert issuer : Certificate K) : Prop :=
  issuer.subject.canonical = cert.issuer.canonical

/-- A chain from the leaf to a trusted certificate, each certificate signed by the key of
the one after it, and each that signs allowed to. -/
structure Sound (verifier : Verifier K) (trusted : List (Certificate K)) (now : ℤ)
    (leaf : Certificate K) (chain : List (Certificate K)) : Prop where
  leaf : chain.head? = some leaf
  rooted : ∃ root, chain.getLast? = some root ∧ ∃ t ∈ trusted, t.der = root.der
  signed : chain.IsChain (Signed verifier)
  named : chain.IsChain Named
  issuers : ∀ issuer ∈ chain.tail, issuer.IsCa ∨ issuer.IsLegacyRoot
  authorities : ∀ issuer ∈ chain.tail.dropLast, issuer.IsCa
  valid : ∀ c ∈ chain, c.notBefore ≤ now ∧ now < c.notAfter
  pathLen : ∀ below issuer above, chain = below ++ issuer :: above → below ≠ [] →
    ∀ ca max, issuer.basicConstraints = .ok (some (ca, some max)) → intermediates below ≤ max

/-- A trusted certificate, or one that the key of a presented and vouched for certificate
signed, which is within its time and allowed to sign. -/
inductive Vouched (verifier : Verifier K) (untrusted trusted : List (Certificate K)) (now : ℤ) :
    Certificate K → Prop
  | trusted (cert t : Certificate K) (ht : t ∈ trusted) (hder : t.der = cert.der) :
      Vouched verifier untrusted trusted now cert
  | signed (cert issuer : Certificate K) (hpresented : issuer ∈ untrusted ∨ issuer ∈ trusted)
      (hissuer : Vouched verifier untrusted trusted now issuer)
      (hnamed : Named cert issuer) (hsigned : Signed verifier cert issuer)
      (hallowed : issuer.IsCa ∨ issuer.IsLegacyRoot)
      (hvalid : issuer.notBefore ≤ now ∧ now < issuer.notAfter) :
      Vouched verifier untrusted trusted now cert

/-- One turn of the loop that goes on. -/
def Grows (untrusted trusted : List (Certificate K)) (now : ℤ)
    (s t : List (Certificate K) × Certificate K) : Prop :=
  turn untrusted trusted now s.1 s.2 = .grown t.1 t.2

structure Answers (verifier : Verifier K) (untrusted trusted : List (Certificate K)) (now : ℤ)
    (leaf : Certificate K) : Prop where
  sound : ∀ chain, verifyChain verifier now leaf untrusted trusted = .ok chain →
    Sound verifier trusted now leaf chain
  refused : ¬ Vouched verifier untrusted trusted now leaf →
    ∃ why, verifyChain verifier now leaf untrusted trusted = .error why
  ends : ∀ turns, List.IsChain (Grows untrusted trusted now) (([], leaf) :: turns) →
    turns.length ≤ maxDepth

/-- A self-issued leaf that is not trusted, in the name of a trusted certificate that
passes for itself. -/
structure Impersonates (trusted : List (Certificate K)) (now : ℤ) (leaf : Certificate K) :
    Prop where
  selfIssued : leaf.selfIssued = true
  unknown : ∀ t ∈ trusted, t.der ≠ leaf.der
  namesake : ∃ root, findIssuer leaf trusted now = some root ∧ root.selfIssued = true ∧
    root.inValidityPeriod now = true ∧ root.extensionsValid = true ∧
    root.unhandledCriticalExtension = false

/-! ### The chain as it is grown -/

section
variable {untrusted trusted : List (Certificate K)} {now : ℤ} {leaf : Certificate K}

theorem findIssuer_some {cert issuer : Certificate K} {candidates : List (Certificate K)}
    (h : findIssuer cert candidates now = some issuer) :
    issuer ∈ candidates ∧ issuer.der ≠ cert.der ∧ cert.couldBeIssuedBy issuer = true := by
  have hmem : issuer ∈ candidates.filter fun c => c.der != cert.der && cert.couldBeIssuedBy c := by
    rcases Option.or_eq_some_iff.1 h with h | ⟨-, h⟩
    · exact List.mem_of_find?_eq_some h
    · exact List.mem_of_head? h
  obtain ⟨hmem, hmatches⟩ := List.mem_filter.1 hmem
  rw [Bool.and_eq_true, bne_iff_ne] at hmatches
  exact ⟨hmem, hmatches⟩

theorem findIssuer_named {cert issuer : Certificate K} {candidates : List (Certificate K)}
    (h : findIssuer cert candidates now = some issuer) : Named cert issuer :=
  Certificate.couldBeIssuedBy_named _ (findIssuer_some h).2.2

/-- What holds of the chain on every turn. -/
structure Growing (untrusted trusted : List (Certificate K)) (leaf : Certificate K)
    (chain : List (Certificate K)) : Prop where
  leaf : chain.head? = some leaf
  named : chain.IsChain Named
  presented : ∀ c ∈ chain.tail, c ∈ untrusted ∨ c ∈ trusted

theorem Growing.start : Growing untrusted trusted leaf [leaf] where
  leaf := rfl
  named := List.isChain_singleton leaf
  presented := by
    intro c hc
    exact nomatch hc

theorem tail_append_singleton {below : List (Certificate K)} {current : Certificate K}
    (hbelow : below ≠ []) : (below ++ [current]).tail = below.tail ++ [current] :=
  List.tail_append_of_ne_nil hbelow

theorem Growing.append {below : List (Certificate K)} {issuer : Certificate K}
    (h : Growing untrusted trusted leaf below)
    (hnamed : ∀ current ∈ below.getLast?, Named current issuer)
    (hpresented : issuer ∈ untrusted ∨ issuer ∈ trusted) :
    Growing untrusted trusted leaf (below ++ [issuer]) where
  leaf := by rw [List.head?_append, h.leaf, Option.some_or]
  named := by
    rw [List.isChain_append]
    refine ⟨h.named, List.isChain_singleton issuer, ?_⟩
    intro current hcurrent other hother
    obtain rfl := Option.some.inj hother
    exact hnamed current hcurrent
  presented := by
    have hne : below ≠ [] := by
      rintro rfl
      exact nomatch h.leaf
    intro c hc
    rw [tail_append_singleton hne, List.mem_append, List.mem_singleton] at hc
    rcases hc with hc | rfl
    · exact h.presented c hc
    · exact hpresented

theorem Growing.below {below : List (Certificate K)} {current : Certificate K}
    (h : Growing untrusted trusted leaf (below ++ [current])) (hne : below ≠ []) :
    Growing untrusted trusted leaf below where
  leaf := by
    obtain ⟨first, rest, rfl⟩ := List.exists_cons_of_ne_nil hne
    exact h.leaf
  named := (List.isChain_append.1 h.named).1
  presented := by
    intro c hc
    apply h.presented
    rw [tail_append_singleton hne]
    exact List.mem_append_left _ hc

theorem Growing.replace {below : List (Certificate K)} {current root : Certificate K}
    (h : Growing untrusted trusted leaf (below ++ [current])) (hne : below ≠ [])
    (hself : current.selfIssued = true) (hroot : findIssuer current trusted now = some root) :
    Growing untrusted trusted leaf (below ++ [root]) := by
  apply (h.below hne).append
  · intro last hlast
    have hcurrent := (List.isChain_append.1 h.named).2.2 last hlast current rfl
    calc root.subject.canonical
      _ = current.issuer.canonical := findIssuer_named hroot
      _ = current.subject.canonical := (Certificate.selfIssued_named hself).symm
      _ = last.issuer.canonical := hcurrent
  · exact Or.inr (findIssuer_some hroot).1

theorem build_ok {below chain : List (Certificate K)} {current : Certificate K}
    (hgrowing : Growing untrusted trusted leaf (below ++ [current]))
    (h : build untrusted trusted now below current = .ok chain) :
    (∃ root, chain.getLast? = some root ∧ ∃ t ∈ trusted, t.der = root.der) ∧
      (Growing untrusted trusted leaf chain ∨ leaf.selfIssued = true ∧
        (∀ t ∈ trusted, t.der ≠ leaf.der) ∧ ∃ root, chain = [root] ∧
          findIssuer leaf trusted now = some root ∧ root.selfIssued = true) := by
  fun_induction build untrusted trusted now below current with
  | case1 below current below' issuer hturn ih =>
      obtain ⟨rfl, -, hissuer⟩ := turn_grown untrusted trusted now hturn
      apply ih _ h
      rcases hissuer with hissuer | hissuer
      · apply hgrowing.append
        · intro last hlast
          rw [List.getLast?_concat] at hlast
          cases hlast
          exact findIssuer_named hissuer
        · exact Or.inr (findIssuer_some hissuer).1
      · apply hgrowing.append
        · intro last hlast
          rw [List.getLast?_concat] at hlast
          cases hlast
          exact findIssuer_named hissuer
        · exact Or.inl (List.mem_of_mem_filter (findIssuer_some hissuer).1)
  | case2 below current built hturn =>
      obtain rfl := Except.ok.inj h
      obtain ⟨hself, ⟨ht, rfl⟩ | ⟨hunknown, root, rfl, hroot, hrootSelf⟩⟩ :=
        turn_built untrusted trusted now hturn
      · exact ⟨⟨current, List.getLast?_concat, ht⟩, Or.inl hgrowing⟩
      · refine ⟨⟨root, List.getLast?_concat, root, (findIssuer_some hroot).1, rfl⟩, ?_⟩
        by_cases hne : below = []
        · subst hne
          obtain rfl := Option.some.inj hgrowing.leaf
          exact Or.inr ⟨hself, hunknown, root, rfl, hroot, hrootSelf⟩
        · exact Or.inl (hgrowing.replace hne hself hroot)
  | case3 below current why hturn => exact nomatch h

theorem turns_bounded {s : List (Certificate K) × Certificate K}
    {turns : List (List (Certificate K) × Certificate K)} (hs : s.1.length ≤ maxDepth)
    (h : List.IsChain (Grows untrusted trusted now) (s :: turns)) :
    s.1.length + turns.length ≤ maxDepth := by
  induction turns generalizing s with
  | nil => exact hs
  | cons t turns ih =>
      obtain ⟨hst, h⟩ := List.isChain_cons_cons.1 h
      obtain ⟨heq, hlength, -⟩ := turn_grown untrusted trusted now hst
      have ht : t.1.length = s.1.length + 1 := by
        rw [heq, List.length_append, List.length_singleton]
      have := ih (s := t) (by omega) h
      rw [List.length_cons]
      omega

end

/-! ### The chain as it is judged -/

section
variable {verifier : Verifier K} {now : ℤ}

/-- The `i`th certificate of a chain passes, with the others `above` it. -/
structure Judged (verifier : Verifier K) (now : ℤ) (i pathLen : ℕ) (cert : Certificate K)
    (above : List (Certificate K)) : Prop where
  valid : cert.inValidityPeriod now = true
  extensions : cert.extensionsValid = true
  handled : cert.unhandledCriticalExtension = false
  issuer : isIssuer i above.isEmpty cert = true
  pathLen : pathLenHolds i pathLen cert = true
  signature : signatureHolds verifier cert above.head? = true

theorem judge_cons_ok_iff {i pathLen : ℕ} {cert : Certificate K} {above : List (Certificate K)} :
    judge verifier now i pathLen (cert :: above) = .ok () ↔
      Judged verifier now i pathLen cert above ∧
        judge verifier now (i + 1) (counted i pathLen cert) above = .ok () := by
  rw [judge]
  simp only [ensure_bind_ok_iff, Bool.not_eq_true']
  constructor
  · rintro ⟨hvalid, hextensions, hhandled, hissuer, hpathLen, hsignature, h⟩
    exact ⟨⟨hvalid, hextensions, hhandled, hissuer, hpathLen, hsignature⟩, h⟩
  · rintro ⟨⟨hvalid, hextensions, hhandled, hissuer, hpathLen, hsignature⟩, h⟩
    exact ⟨hvalid, hextensions, hhandled, hissuer, hpathLen, hsignature, h⟩

def countedOver (i pathLen : ℕ) : List (Certificate K) → ℕ
  | [] => pathLen
  | cert :: rest => countedOver (i + 1) (counted i pathLen cert) rest

theorem judged_of_ok {chain below above : List (Certificate K)} {cert : Certificate K}
    {i pathLen : ℕ} (h : judge verifier now i pathLen chain = .ok ())
    (hchain : chain = below ++ cert :: above) :
    Judged verifier now (i + below.length) (countedOver i pathLen below) cert above := by
  induction below generalizing chain i pathLen with
  | nil =>
      subst hchain
      exact (judge_cons_ok_iff.1 h).1
  | cons first below ih =>
      subst hchain
      have := ih (judge_cons_ok_iff.1 h).2 rfl
      rwa [List.length_cons, ← Nat.add_assoc, Nat.add_right_comm]

theorem countedOver_pos {i pathLen : ℕ} (hi : 0 < i) (below : List (Certificate K)) :
    countedOver i pathLen below =
      pathLen + below.countP fun c => !c.subject.sameAs c.issuer := by
  induction below generalizing i pathLen with
  | nil => rfl
  | cons cert below ih =>
      rw [countedOver, ih (Nat.succ_pos i), List.countP_cons, counted]
      cases cert.subject.sameAs cert.issuer with
      | true => simp
      | false =>
          rw [if_pos ⟨hi, rfl⟩]
          simp only [Bool.not_false, if_true]
          omega

theorem countedOver_zero (below : List (Certificate K)) :
    countedOver 0 0 below = intermediates below := by
  cases below with
  | nil => rfl
  | cons leaf below =>
      rw [countedOver, countedOver_pos Nat.one_pos, counted, if_neg (fun h => (h.1).ne' rfl)]
      exact Nat.zero_add _

theorem isIssuer_iff {i : ℕ} {last : Bool} {cert : Certificate K} (hi : 0 < i) :
    isIssuer i last cert = true ↔
      (cert.IsCa ∨ cert.IsLegacyRoot) ∧ (last = false → cert.IsCa) := by
  rw [← Certificate.checkCa_ne_zero_iff, ← Certificate.checkCa_eq_one_iff, isIssuer]
  have hne : (i == 0) = false := beq_eq_false_iff_ne.2 hi.ne'
  rw [hne]
  cases last <;> simp

theorem intermediates_short {below : List (Certificate K)} (h : below.length < 2) :
    intermediates below = 0 := by
  match below, h with
  | [], _ => rfl
  | [_], _ => rfl

theorem pathLen_of_holds {below : List (Certificate K)} {cert : Certificate K} {ca : Bool}
    {max : ℕ} (hcert : cert.basicConstraints = .ok (some (ca, some max)))
    (h : pathLenHolds below.length (intermediates below) cert = true) :
    intermediates below ≤ max := by
  by_cases hshort : below.length < 2
  · rw [intermediates_short hshort]
    exact Nat.zero_le max
  · obtain ⟨n, hn⟩ : ∃ n, below.length = n + 2 := ⟨below.length - 2, by omega⟩
    rw [hn] at h
    simp only [pathLenHolds, hcert] at h
    simpa using h

theorem mem_split_of_tail {chain : List (Certificate K)} {cert : Certificate K}
    (h : cert ∈ chain.tail) :
    ∃ below above, chain = below ++ cert :: above ∧ 0 < below.length := by
  cases chain with
  | nil => exact nomatch h
  | cons first rest =>
      obtain ⟨below, above, hrest⟩ := List.append_of_mem h
      exact ⟨first :: below, above, congrArg (first :: ·) hrest, Nat.succ_pos _⟩

theorem mem_split_of_dropLast {chain : List (Certificate K)} {cert : Certificate K}
    (h : cert ∈ chain.tail.dropLast) :
    ∃ below above, chain = below ++ cert :: above ∧ 0 < below.length ∧ above ≠ [] := by
  cases chain with
  | nil => exact nomatch h
  | cons first rest =>
      obtain ⟨below, above, hrest⟩ := List.append_of_mem h
      have hne : rest ≠ [] := by
        rintro rfl
        exact nomatch h
      refine ⟨first :: below, above ++ [rest.getLast hne], ?_, Nat.succ_pos _, ?_⟩
      · have hrest : rest.dropLast = below ++ cert :: above := hrest
        calc first :: rest
          _ = first :: (rest.dropLast ++ [rest.getLast hne]) := by
            rw [List.dropLast_append_getLast hne]
          _ = first :: below ++ cert :: (above ++ [rest.getLast hne]) := by
            rw [hrest, List.append_assoc]
            rfl
      · exact List.append_ne_nil_of_right_ne_nil _ (List.cons_ne_nil _ _)

theorem sound_of_judged {untrusted trusted chain : List (Certificate K)} {leaf : Certificate K}
    (hgrowing : Growing untrusted trusted leaf chain)
    (hrooted : ∃ root, chain.getLast? = some root ∧ ∃ t ∈ trusted, t.der = root.der)
    (h : judge verifier now 0 0 chain = .ok ()) : Sound verifier trusted now leaf chain where
  leaf := hgrowing.leaf
  rooted := hrooted
  signed := by
    rw [List.isChain_iff_getElem]
    intro i hi
    have hsplit : chain = chain.take i ++ chain[i] :: chain.drop (i + 1) := by
      rw [List.getElem_cons_drop, List.take_append_drop]
    have hsignature := (judged_of_ok h hsplit).signature
    rw [List.head?_drop, List.getElem?_eq_getElem hi] at hsignature
    exact hsignature
  named := hgrowing.named
  issuers := by
    intro issuer hissuer
    obtain ⟨below, above, hchain, hpos⟩ := mem_split_of_tail hissuer
    exact ((isIssuer_iff (Nat.add_pos_right 0 hpos)).1 (judged_of_ok h hchain).issuer).1
  authorities := by
    intro issuer hissuer
    obtain ⟨below, above, hchain, hpos, hne⟩ := mem_split_of_dropLast hissuer
    exact ((isIssuer_iff (Nat.add_pos_right 0 hpos)).1 (judged_of_ok h hchain).issuer).2
      (List.isEmpty_eq_false_iff.2 hne)
  valid := by
    intro c hc
    obtain ⟨below, above, hchain⟩ := List.append_of_mem hc
    exact of_decide_eq_true (judged_of_ok h hchain).valid
  pathLen := by
    intro below issuer above hchain _ ca max hmax
    have hholds := (judged_of_ok h hchain).pathLen
    rw [Nat.zero_add, countedOver_zero] at hholds
    exact pathLen_of_holds hmax hholds

theorem vouched_of_chain {untrusted trusted chain : List (Certificate K)} {leaf : Certificate K}
    (hleaf : chain.head? = some leaf)
    (hrooted : ∃ root, chain.getLast? = some root ∧ ∃ t ∈ trusted, t.der = root.der)
    (hsigned : chain.IsChain (Signed verifier)) (hnamed : chain.IsChain Named)
    (hpresented : ∀ c ∈ chain.tail, c ∈ untrusted ∨ c ∈ trusted)
    (hissuers : ∀ issuer ∈ chain.tail, issuer.IsCa ∨ issuer.IsLegacyRoot)
    (hvalid : ∀ c ∈ chain, c.notBefore ≤ now ∧ now < c.notAfter) :
    Vouched verifier untrusted trusted now leaf := by
  induction chain generalizing leaf with
  | nil => exact nomatch hleaf
  | cons cert above ih =>
      obtain rfl := Option.some.inj hleaf
      cases above with
      | nil =>
          obtain ⟨root, hroot, t, ht, hder⟩ := hrooted
          obtain rfl := Option.some.inj hroot
          exact Vouched.trusted _ t ht hder
      | cons issuer above =>
          obtain ⟨hsignedHead, hsigned⟩ := List.isChain_cons_cons.1 hsigned
          obtain ⟨hnamedHead, hnamed⟩ := List.isChain_cons_cons.1 hnamed
          have hissuer : Vouched verifier untrusted trusted now issuer := by
            apply ih rfl _ hsigned hnamed
            · intro c hc
              exact hpresented c (List.mem_cons_of_mem _ hc)
            · intro c hc
              exact hissuers c (List.mem_cons_of_mem _ hc)
            · intro c hc
              exact hvalid c (List.mem_cons_of_mem _ hc)
            · rwa [List.getLast?_cons_cons] at hrooted
          have hmem : issuer ∈ (cert :: issuer :: above).tail := List.mem_cons_self
          exact Vouched.signed _ issuer (hpresented issuer hmem) hissuer hnamedHead hsignedHead
            (hissuers issuer hmem) (hvalid issuer (List.mem_cons_of_mem _ hmem))

theorem Sound.vouched {untrusted trusted chain : List (Certificate K)} {leaf : Certificate K}
    (h : Sound verifier trusted now leaf chain)
    (hpresented : ∀ c ∈ chain.tail, c ∈ untrusted ∨ c ∈ trusted) :
    Vouched verifier untrusted trusted now leaf :=
  vouched_of_chain h.leaf h.rooted h.signed h.named hpresented h.issuers h.valid

/-! ### The answer -/

theorem verifyChain_ok_iff {leaf : Certificate K} {untrusted trusted chain : List (Certificate K)} :
    verifyChain verifier now leaf untrusted trusted = .ok chain ↔
      build untrusted trusted now [] leaf = .ok chain ∧ judge verifier now 0 0 chain = .ok () := by
  unfold verifyChain
  cases hbuild : build untrusted trusted now [] leaf with
  | error why => exact ⟨(fun h => nomatch h), (fun h => nomatch h.1)⟩
  | ok built =>
      change (judge verifier now 0 0 built >>= _) = _ ↔ _
      cases hjudge : judge verifier now 0 0 built with
      | error why =>
          refine ⟨(fun h => nomatch h), ?_⟩
          rintro ⟨hchain, h⟩
          obtain rfl := Except.ok.inj hchain
          exact nomatch hjudge.symm.trans h
      | ok _ =>
          constructor
          · intro h
            obtain rfl := Except.ok.inj h
            exact ⟨rfl, hjudge⟩
          · rintro ⟨h, -⟩
            exact h

theorem judge_singleton_ok_iff {cert : Certificate K} :
    judge verifier now 0 0 [cert] = .ok () ↔
      cert.inValidityPeriod now = true ∧ cert.extensionsValid = true ∧
        cert.unhandledCriticalExtension = false := by
  rw [judge_cons_ok_iff]
  constructor
  · rintro ⟨h, -⟩
    exact ⟨h.valid, h.extensions, h.handled⟩
  · rintro ⟨hvalid, hextensions, hhandled⟩
    exact ⟨⟨hvalid, hextensions, hhandled, rfl, rfl, rfl⟩, rfl⟩

theorem build_impersonated {leaf root : Certificate K} {untrusted trusted : List (Certificate K)}
    (hself : leaf.selfIssued = true) (hunknown : ∀ t ∈ trusted, t.der ≠ leaf.der)
    (hroot : findIssuer leaf trusted now = some root) (hrootSelf : root.selfIssued = true) :
    build untrusted trusted now [] leaf = .ok [root] := by
  have hnone : trusted.any (fun t => t.der == leaf.der) = false := by
    rw [List.any_eq_false]
    intro t ht h
    exact hunknown t ht (beq_iff_eq.1 h)
  have hdepth : ¬ ([] : List (Certificate K)).length + 1 > maxDepth := by
    rw [List.length_nil]
    decide
  have hturn : turn untrusted trusted now [] leaf = .built [root] := by
    rw [turn, if_neg hdepth, if_pos hself, if_neg (by rw [hnone]; exact Bool.false_ne_true),
      hroot, Option.filter_some_pos hrootSelf]
    rfl
  rw [build]
  split
  · rename_i h
    exact nomatch h.symm.trans hturn
  · rename_i h
    rw [hturn] at h
    exact congrArg Except.ok (Turn.built.inj h).symm
  · rename_i h
    exact nomatch h.symm.trans hturn

theorem verifyChain_ok {leaf : Certificate K} {untrusted trusted chain : List (Certificate K)}
    (h : verifyChain verifier now leaf untrusted trusted = .ok chain) :
    Sound verifier trusted now leaf chain ∧ (∀ c ∈ chain.tail, c ∈ untrusted ∨ c ∈ trusted) ∨
      Impersonates trusted now leaf := by
  obtain ⟨hbuild, hjudge⟩ := verifyChain_ok_iff.1 h
  obtain ⟨hrooted, hgrowing | ⟨hself, hunknown, root, rfl, hroot, hrootSelf⟩⟩ :=
    build_ok Growing.start hbuild
  · exact Or.inl ⟨sound_of_judged hgrowing hrooted hjudge, hgrowing.presented⟩
  · exact Or.inr ⟨hself, hunknown, root, hroot, hrootSelf, judge_singleton_ok_iff.1 hjudge⟩

/-- Every answer is a chain of signatures from the leaf to a trusted certificate, and a
leaf that nobody vouches for is refused, exactly for the leaves that do not pose as a
trusted certificate. -/
theorem answers_iff_not_impersonates (verifier : Verifier K)
    (untrusted trusted : List (Certificate K)) (now : ℤ) (leaf : Certificate K) :
    Answers verifier untrusted trusted now leaf ↔ ¬ Impersonates trusted now leaf := by
  constructor
  · rintro h ⟨hself, hunknown, root, hroot, hrootSelf, hpasses⟩
    have hok : verifyChain verifier now leaf untrusted trusted = .ok [root] :=
      verifyChain_ok_iff.2
        ⟨build_impersonated hself hunknown hroot hrootSelf, judge_singleton_ok_iff.2 hpasses⟩
    obtain rfl := Option.some.inj (h.sound _ hok).leaf
    exact hunknown _ (findIssuer_some hroot).1 rfl
  · intro himpersonates
    constructor
    · intro chain hchain
      exact ((verifyChain_ok hchain).resolve_right himpersonates).1
    · intro hvouched
      cases hanswer : verifyChain verifier now leaf untrusted trusted with
      | error why => exact ⟨why, rfl⟩
      | ok chain =>
          obtain ⟨hsound, hpresented⟩ := (verifyChain_ok hanswer).resolve_right himpersonates
          exact absurd (hsound.vouched hpresented) hvouched
    · intro turns hturns
      have := turns_bounded (s := ([], leaf)) (Nat.zero_le maxDepth) hturns
      rwa [List.length_nil, Nat.zero_add] at this

end

/-! ### A leaf in the root's name -/

def rootName : Name := ⟨[[⟨[0x55, 0x04, 0x03], 12, [0x52, 0x6f, 0x6f, 0x74]⟩]]⟩

def inRootName (key : ℕ) : Certificate ℕ where
  der := [UInt8.ofNat key]
  tbs := [UInt8.ofNat key]
  tbsSignatureAlgorithm := []
  signatureAlgorithm := []
  signatureOid := Der.oid Oids.sha256Rsa
  signature := [UInt8.ofNat key]
  version := 2
  serial := [UInt8.ofNat key]
  issuer := rootName
  subject := rootName
  notBefore := 0
  notAfter := 100
  publicKey := key
  extensions := []

def ownSignatures : Verifier ℕ where
  verifyPkcs1 key _ tbs signature :=
    decide (key = 1 ∧ tbs = [1] ∧ signature = [1] ∨ key = 2 ∧ tbs = [2] ∧ signature = [2])
  verifyEcdsa _ _ _ _ := false

theorem impostor_impersonates : Impersonates [inRootName 1] 50 (inRootName 2) where
  selfIssued := by decide +kernel
  unknown := by decide
  namesake := ⟨inRootName 1, by decide +kernel⟩

theorem impostor_unsigned : ¬ Signed ownSignatures (inRootName 2) (inRootName 1) := by
  unfold Signed Certificate.signedBy
  simp [ownSignatures, inRootName]

theorem vouched_ne_impostor {cert : Certificate ℕ}
    (h : Vouched ownSignatures [inRootName 2] [inRootName 1] 50 cert) : cert ≠ inRootName 2 := by
  induction h with
  | trusted cert t ht hder =>
      rintro rfl
      obtain rfl := List.mem_singleton.1 ht
      exact absurd hder (by decide)
  | signed cert issuer hpresented _ _ hsigned _ _ ih =>
      rintro rfl
      rcases hpresented with hissuer | hissuer
      · exact ih (List.mem_singleton.1 hissuer)
      · obtain rfl := List.mem_singleton.1 hissuer
        exact impostor_unsigned hsigned

/-- The impostor is answered with the root alone. -/
theorem impostor_accepted :
    verifyChain ownSignatures 50 (inRootName 2) [inRootName 2] [inRootName 1] =
        .ok [inRootName 1] ∧
      ¬ Vouched ownSignatures [inRootName 2] [inRootName 1] 50 (inRootName 2) ∧
      ¬ Answers ownSignatures [inRootName 2] [inRootName 1] 50 (inRootName 2) := by
  have hok : verifyChain ownSignatures 50 (inRootName 2) [inRootName 2] [inRootName 1] =
      .ok [inRootName 1] := by
    apply verifyChain_ok_iff.2
    exact ⟨build_impersonated impostor_impersonates.selfIssued impostor_impersonates.unknown
      (by decide +kernel) (by decide +kernel), judge_singleton_ok_iff.2 (by decide +kernel)⟩
  refine ⟨hok, (fun h => vouched_ne_impostor h rfl), ?_⟩
  intro h
  exact absurd (h.sound _ hok).leaf (by decide +kernel)

end Eunha.CertificateChains
