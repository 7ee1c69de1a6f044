import Eunha.Database

/-!
# Audience and visibility

The visibility of an object from another server is read off its `to` and `cc`, and the `to`
and `cc` of a local status follow from its visibility. A followers collection is known by the
end of its URI, whoever's it is.
-/
namespace Eunha.Addressing

def activityStreamsPublic : String := "https://www.w3.org/ns/activitystreams#Public"

/-- `addressing::Visibility`, how widely an object is addressed. -/
inductive Visibility where
  | pub
  | unlisted
  | priv
  | direct
  deriving DecidableEq

def publicCollection (uri : String) : Bool :=
  uri = activityStreamsPublic || uri = "as:Public" || uri = "Public"

/-- `uri.ends_with(FOLLOWERS_SUFFIX)` -/
def isFollowers (uri : String) : Bool := "/followers".toList.isSuffixOf uri.toList

def visibilityFromAudience (tos cc : List String) : Visibility :=
  if tos.any publicCollection then .pub
  else if cc.any publicCollection then .unlisted
  else if tos.any isFollowers || cc.any isFollowers then .priv
  else .direct

def audienceFor (visibility : Visibility) (followers : String) (mentioned : List String) :
    List String × List String :=
  match visibility with
  | .pub => ([activityStreamsPublic], followers :: mentioned)
  | .unlisted => ([followers], activityStreamsPublic :: mentioned)
  | .priv => ([followers], mentioned)
  | .direct => (mentioned, [])

/-- `vis::from_audience`, which is also the visibility that `handle_create` stores. -/
def fromAudience (tos cc : List String) : Database.Visibility :=
  match visibilityFromAudience tos cc with
  | .pub => .pub
  | .unlisted => .unlisted
  | .priv => .priv
  | .direct => .direct

def audience (v : Database.Visibility) (followers : String) (mentioned : List String) :
    List String × List String :=
  match v with
  | .pub => audienceFor .pub followers mentioned
  | .unlisted => audienceFor .unlisted followers mentioned
  | .priv => audienceFor .priv followers mentioned
  | .direct => audienceFor .direct followers mentioned
  -- "limited" is serialized like "direct"
  | .limited => (mentioned, [])

/-! ### What an audience is read as -/

def addressedTo (p : String → Bool) (tos cc : List String) : Bool := tos.any p || cc.any p

theorem fromAudience_eq_priv_iff {tos cc : List String} :
    fromAudience tos cc = .priv ↔
      addressedTo publicCollection tos cc = false ∧ addressedTo isFollowers tos cc = true := by
  rw [fromAudience, visibilityFromAudience, addressedTo, addressedTo]
  cases tos.any publicCollection <;> cases cc.any publicCollection <;>
    cases tos.any isFollowers || cc.any isFollowers <;> simp

theorem fromAudience_eq_direct_iff {tos cc : List String} :
    fromAudience tos cc = .direct ↔
      addressedTo publicCollection tos cc = false ∧ addressedTo isFollowers tos cc = false := by
  rw [fromAudience, visibilityFromAudience, addressedTo, addressedTo]
  cases tos.any publicCollection <;> cases cc.any publicCollection <;>
    cases tos.any isFollowers || cc.any isFollowers <;> simp

theorem fromAudience_eq_unlisted_iff {tos cc : List String} :
    fromAudience tos cc = .unlisted ↔
      tos.any publicCollection = false ∧ cc.any publicCollection = true := by
  rw [fromAudience, visibilityFromAudience]
  cases tos.any publicCollection <;> cases cc.any publicCollection <;>
    cases tos.any isFollowers || cc.any isFollowers <;> simp

theorem fromAudience_eq_pub_iff {tos cc : List String} :
    fromAudience tos cc = .pub ↔ tos.any publicCollection = true := by
  rw [fromAudience, visibilityFromAudience]
  cases tos.any publicCollection <;> cases cc.any publicCollection <;>
    cases tos.any isFollowers || cc.any isFollowers <;> simp

theorem publicCollection_public : publicCollection activityStreamsPublic = true := by
  simp [publicCollection]

/-! ### Inbound notes -/

/-- A note of an author with this followers collection is stored for followers only where
the collection is addressed, and is where it is and the public is not. -/
structure ReadAsAddressed (followers : String) (tos cc : List String) : Prop where
  only : fromAudience tos cc = .priv → followers ∈ tos ++ cc
  whenever : followers ∈ tos ++ cc → addressedTo publicCollection tos cc = false →
    fromAudience tos cc = .priv

theorem readAsAddressed_iff (followers : String) (tos cc : List String) :
    ReadAsAddressed followers tos cc ↔
      (addressedTo publicCollection tos cc = true ∨
        (addressedTo isFollowers tos cc = true ↔ followers ∈ tos ++ cc)) := by
  constructor
  · rintro ⟨honly, hwhenever⟩
    rw [fromAudience_eq_priv_iff] at honly hwhenever
    cases hpublic : addressedTo publicCollection tos cc with
    | true => exact .inl rfl
    | false =>
        refine .inr ⟨fun hsuffix => honly ⟨hpublic, hsuffix⟩, fun hmem => ?_⟩
        exact (hwhenever hmem hpublic).2
  · intro h
    refine ⟨fun hpriv => ?_, fun hmem hpublic => fromAudience_eq_priv_iff.mpr ⟨hpublic, ?_⟩⟩
    · obtain ⟨hpublic, hsuffix⟩ := fromAudience_eq_priv_iff.mp hpriv
      rcases h with h | h
      · rw [h] at hpublic
        cases hpublic
      · exact h.mp hsuffix
    · rcases h with h | h
      · rw [h] at hpublic
        cases hpublic
      · exact h.mpr hmem

/-! ### Local statuses -/

def readBack : Database.Visibility → Database.Visibility
  | .limited => .direct
  | v => v

def RoundTrips (v : Database.Visibility) (followers : String) (mentioned : List String) : Prop :=
  fromAudience (audience v followers mentioned).1 (audience v followers mentioned).2 = readBack v

def WellSpelled (v : Database.Visibility) (followers : String) (mentioned : List String) : Prop :=
  match v with
  | .pub => True
  | .unlisted => publicCollection followers = false
  | .priv =>
      publicCollection followers = false ∧ mentioned.any publicCollection = false ∧
        (isFollowers followers = true ∨ mentioned.any isFollowers = true)
  | .direct => mentioned.any publicCollection = false ∧ mentioned.any isFollowers = false
  | .limited => mentioned.any publicCollection = false ∧ mentioned.any isFollowers = false

theorem roundTrips_iff (v : Database.Visibility) (followers : String) (mentioned : List String) :
    RoundTrips v followers mentioned ↔ WellSpelled v followers mentioned := by
  cases v with
  | pub =>
      refine iff_of_true (fromAudience_eq_pub_iff.mpr ?_) trivial
      simp [audience, audienceFor, publicCollection_public]
  | unlisted =>
      refine fromAudience_eq_unlisted_iff.trans ?_
      simp [audience, audienceFor, publicCollection_public, WellSpelled]
  | priv =>
      refine fromAudience_eq_priv_iff.trans ?_
      simp only [audience, audienceFor, addressedTo, List.any_cons, List.any_nil, Bool.or_false,
        Bool.or_eq_false_iff, Bool.or_eq_true, WellSpelled, and_assoc]
  | direct =>
      refine fromAudience_eq_direct_iff.trans ?_
      simp only [audience, audienceFor, addressedTo, List.any_nil, Bool.or_false, WellSpelled]
  | limited =>
      refine fromAudience_eq_direct_iff.trans ?_
      simp only [audience, addressedTo, List.any_nil, Bool.or_false, WellSpelled]

/-- Visibility is derived as it was addressed, and read back as it was, exactly where the
collections named by their URIs' ends are the author's. -/
theorem derived_as_addressed_iff (followers : String) (tos cc : List String)
    (v : Database.Visibility) (mentioned : List String) :
    (ReadAsAddressed followers tos cc ∧ RoundTrips v followers mentioned) ↔
      ((addressedTo publicCollection tos cc = true ∨
          (addressedTo isFollowers tos cc = true ↔ followers ∈ tos ++ cc)) ∧
        WellSpelled v followers mentioned) := by
  rw [readAsAddressed_iff, roundTrips_iff]

/-- A message to one account and to the followers of another is shown to the author's. -/
theorem others_followers_taken_for_own :
    ¬ ReadAsAddressed "https://a.example/users/alice/followers"
      ["https://b.example/users/bob"] ["https://c.example/users/carol/followers"] := by
  rw [readAsAddressed_iff]
  decide +kernel

end Eunha.Addressing
