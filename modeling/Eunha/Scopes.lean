import Eunha.OAuth
import Eunha.SanitizerSafety

/-!
# What a token's scopes cover

A client asks for scopes with a string, and may have them when each is one of those its
application registered. The two strings are compared piece by piece, cut at spaces; the
token keeps the string as it was asked for, and every request cuts it again, at white space
and at commas. A scope may stand for others: a parent for its children, and two of them for
a few scopes of other families.
-/
namespace Eunha.Scopes
open OAuth

/-! ### Scopes of a request -/

def isSeparator (c : Char) : Bool := Sanitizer.isWhitespace c || c = ','

/-- The scopes of an `AuthenticatedUser`, from those of its token. -/
def tokenScopes (scopes : Option String) : List String :=
  pieces isSeparator (scopes.getD "read")

/-- `required.rsplit_once(':')`, the part before. -/
def parentOf (required : String) : Option String :=
  if ':' ∈ required.toList then
    some (String.ofList ((required.toList.reverse.dropWhile (· ≠ ':')).drop 1).reverse)
  else none

/-- What `follow` covers. -/
def socialScopes : List String :=
  ["write:follows", "write:blocks", "write:mutes", "read:follows", "read:blocks", "read:mutes"]

def hasScope (scopes : List String) (required : String) : Bool :=
  if scopes.contains required then true
  else if (parentOf required).any scopes.contains then true
  else if socialScopes.contains required && scopes.contains "follow" then true
  else required = "read:accounts" && scopes.contains "profile"

/-- `issue_grant`: the scopes of the code, unless they are refused. The exchange gives the
token those of the code. -/
def grantedScopes (scope registered : Option String) : Option String :=
  let scopes := scope.getD (registered.getD "read")
  if scopeIsSubset scopes (registered.getD "read") then some scopes else none

theorem hasScope_mono {scopes more : List String} (h : ∀ s ∈ scopes, s ∈ more)
    {required : String} (hs : hasScope scopes required = true) :
    hasScope more required = true := by
  have hmono : ∀ s, scopes.contains s = true → more.contains s = true := by
    intro s hc
    exact List.contains_iff_mem.mpr (h s (List.contains_iff_mem.mp hc))
  have hparent : (parentOf required).any scopes.contains = true →
      (parentOf required).any more.contains = true := by
    intro hp
    cases hq : parentOf required with
    | none => simp [hq] at hp
    | some parent =>
        rw [hq] at hp
        exact hmono parent hp
  unfold hasScope at hs ⊢
  grind

/-! ### Finer pieces -/

theorem splitOnP_flatMap {p q : Char → Bool} (hpq : ∀ c, p c = true → q c = true)
    (text : List Char) : text.splitOnP q = (text.splitOnP p).flatMap (·.splitOnP q) := by
  induction text with
  | nil => rfl
  | cons c text ih =>
      rw [List.splitOnP_cons_eq_if_modifyHead, List.splitOnP_cons_eq_if_modifyHead, ih]
      by_cases hp : p c = true
      · rw [if_pos (hpq c hp), if_pos hp, List.flatMap_cons, List.splitOnP_nil,
          List.singleton_append]
      · rw [if_neg hp]
        cases hpieces : text.splitOnP p with
        | nil => exact absurd hpieces (List.splitOnP_ne_nil p text)
        | cons first rest =>
            rw [List.modifyHead_cons, List.flatMap_cons, List.flatMap_cons,
              List.splitOnP_cons_eq_if_modifyHead]
            by_cases hq : q c = true
            · rw [if_pos hq, if_pos hq, List.cons_append]
            · rw [if_neg hq, if_neg hq]
              cases hfirst : first.splitOnP q with
              | nil => exact absurd hfirst (List.splitOnP_ne_nil q first)
              | cons head tail => rfl

theorem mem_pieces_iff {p : Char → Bool} {text s : String} :
    s ∈ pieces p text ↔ s.toList ∈ text.toList.splitOnP p ∧ s.toList ≠ [] := by
  constructor
  · intro h
    obtain ⟨piece, hpiece, rfl⟩ := List.mem_map.mp h
    rw [String.toList_ofList]
    exact ⟨(List.mem_filter.mp hpiece).1, of_decide_eq_true (List.mem_filter.mp hpiece).2⟩
  · rintro ⟨hmem, hne⟩
    exact List.mem_map.mpr ⟨s.toList, List.mem_filter.mpr ⟨hmem, decide_eq_true hne⟩,
      String.ofList_toList⟩

theorem mem_pieces_finer {p q : Char → Bool} (hpq : ∀ c, p c = true → q c = true)
    {text s : String} :
    s ∈ pieces q text ↔ ∃ piece ∈ pieces p text, s ∈ pieces q piece := by
  constructor
  · intro h
    obtain ⟨hmem, hne⟩ := mem_pieces_iff.mp h
    rw [splitOnP_flatMap hpq] at hmem
    obtain ⟨piece, hpiece, hs⟩ := List.mem_flatMap.mp hmem
    refine ⟨String.ofList piece, mem_pieces_iff.mpr ?_, mem_pieces_iff.mpr ?_⟩
    · rw [String.toList_ofList]
      refine ⟨hpiece, ?_⟩
      rintro rfl
      rw [List.splitOnP_nil, List.mem_singleton] at hs
      exact hne hs
    · rw [String.toList_ofList]
      exact ⟨hs, hne⟩
  · rintro ⟨piece, hpiece, hs⟩
    obtain ⟨hmem, -⟩ := mem_pieces_iff.mp hpiece
    obtain ⟨hpart, hne⟩ := mem_pieces_iff.mp hs
    rw [mem_pieces_iff, splitOnP_flatMap hpq]
    exact ⟨List.mem_flatMap.mpr ⟨piece.toList, hmem, hpart⟩, hne⟩

theorem space_isSeparator (c : Char) (h : decide (c = ' ') = true) : isSeparator c = true := by
  rw [of_decide_eq_true h]
  decide

theorem tokenScopes_subset {requested registered : String}
    (h : scopeIsSubset requested registered = true) {s : String}
    (hs : s ∈ pieces isSeparator requested) : s ∈ pieces isSeparator registered := by
  obtain ⟨piece, hpiece, hpart⟩ := (mem_pieces_finer space_isSeparator).mp hs
  have hall := List.all_eq_true.mp h piece hpiece
  exact (mem_pieces_finer space_isSeparator).mpr ⟨piece, of_decide_eq_true hall, hpart⟩

/-! ### Normalised scopes -/

theorem pieces_normalizeScopes (s : String) :
    pieces isSeparator (normalizeScopes s) = pieces isSeparator s := by
  have hlist : (normalizeScopes s).toList =
      [' '].intercalate ((s.toList.splitOnP isSeparator).filter (· ≠ [])) := by
    unfold normalizeScopes
    rw [String.toList_intercalate]
    simp only [pieces, List.map_map, Function.comp_def, String.toList_ofList, List.map_id']
    rfl
  unfold pieces
  rw [hlist]
  by_cases hnil : (s.toList.splitOnP isSeparator).filter (· ≠ []) = []
  · rw [hnil]
    rfl
  · rw [Sanitizer.splitOnP_intercalate (by decide) hnil]
    · rw [List.filter_filter]
      simp
    · intro token ht c hc
      exact (Sanitizer.mem_of_mem_splitOnP (List.mem_filter.mp ht).1 hc).2

/-! ### Scopes never widen -/

/-- The scopes of a token cover nothing that the application's, as they are kept or as they
were sent, do not. -/
theorem scopes_never_widen (scope registered : Option String) (granted : String)
    (h : grantedScopes scope registered = some granted) (required : String) :
    (hasScope (tokenScopes (some granted)) required = true →
      hasScope (tokenScopes registered) required = true) ∧
    (∀ sent, registered = some (normalizeScopes sent) →
      hasScope (tokenScopes (some granted)) required = true →
      hasScope (tokenScopes (some sent)) required = true) := by
  have hkept : hasScope (tokenScopes (some granted)) required = true →
      hasScope (tokenScopes registered) required = true := by
    apply hasScope_mono
    simp only [grantedScopes] at h
    split_ifs at h with hsub
    rw [← Option.some.inj h]
    exact fun s hs => tokenScopes_subset hsub hs
  refine ⟨hkept, ?_⟩
  rintro sent rfl hgranted
  have hsent := hkept hgranted
  unfold tokenScopes at hsent ⊢
  rwa [Option.getD_some, pieces_normalizeScopes] at hsent

theorem scopes_never_widen_kept :
    hasScope (tokenScopes (some "write read:accounts push")) "write:media" = true :=
  (scopes_never_widen (some "read:accounts write") (some "write read:accounts push")
    "read:accounts write" (by decide +kernel) "write:media").1 (by decide +kernel)

end Eunha.Scopes
