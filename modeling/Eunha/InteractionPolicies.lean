import Eunha.NoteReading
import Mathlib.Data.List.Dedup

/-!
# Interaction policies

Who may quote a post or feature an account is listed by another server as collections and
accounts, for what is allowed at once and for what is asked first. Each list is read into
flags: a name that is known is struck off the list and sets its flag, and what is left over is
unsupported. Two parsers do this, one for quotes and one for features, and they differ in what
they take of a list and in what they make of an empty name.
-/
namespace Eunha.InteractionPolicies
open JsonText (Value)
open Notes (Json member asString)
open NoteReading (sortDedup blank)
open Quotes (unsupportedPolicy publicPolicy followersPolicy followingPolicy ForAccount forAccount)

/-! ### Flags -/

def disabledPolicy : BitVec 32 := 16

def flagIf (b : Bool) (flag : BitVec 32) : BitVec 32 := if b then flag else 0

/-- `quote_policy::automatic` and `feature_policy::automatic` -/
def automatic (bitmap : BitVec 32) : BitVec 32 := bitmap.sshiftRight 16

/-- `quote_policy::manual` and `feature_policy::manual` -/
def manual (bitmap : BitVec 32) : BitVec 32 := bitmap &&& 0xFFFF

def publicCollections : List String :=
  ["as:Public", "Public", "https://www.w3.org/ns/activitystreams#Public"]

/-- The actor's collections and id, each possibly empty. -/
structure Actor where
  followers : String
  following : String
  id : String

/-! ### `quote_policy::parse` -/

/-- A name struck off the list, unless it is empty, and whether there was one. -/
def take (candidates : List String) (actors : List String) : List String × Bool :=
  let rest := actors.filter fun a => !candidates.contains a || a.isEmpty
  (rest, rest.length ≠ actors.length)

def takeNonempty (candidate : String) (actors : List String) : List String × Bool :=
  if candidate.isEmpty then (actors, false) else take [candidate] actors

def quoteName : Json → Option String
  | .string s => some (String.ofList s)
  | .object members => (member "id" (.object members)).bind asString
  | _ => none

def quoteNames : Option Json → List String
  | some (.string s) => [String.ofList s]
  | some (.array values) => values.filterMap quoteName
  | _ => []

def quoteSub (actor : Actor) (value : Option Json) : BitVec 32 :=
  match take publicCollections (sortDedup (quoteNames value)) with
  | (actors, isPublic) =>
      match takeNonempty actor.followers actors with
      | (actors, isFollowers) =>
          match takeNonempty actor.following actors with
          | (actors, isFollowing) =>
              flagIf isPublic publicPolicy ||| flagIf isFollowers followersPolicy |||
                flagIf isFollowing followingPolicy |||
                flagIf (!(take [actor.id] actors).1.isEmpty) unsupportedPolicy

def isObject : Json → Bool
  | .object _ => true
  | _ => false

/-- `interactionPolicy.canQuote`, an object. -/
def canQuote (object : Json) : Option Json :=
  ((member "interactionPolicy" object).bind (member "canQuote")).filter isObject

/-- `quote_policy::parse` -/
def quoteParse (object : Json) (actor : Actor) : BitVec 32 :=
  match canQuote object with
  | none => 0
  | some policy =>
      quoteSub actor (member "automaticApproval" policy) <<< 16 |||
        quoteSub actor (member "manualApproval" policy)

/-! ### `feature_policy::parse` -/

mutual
def same : Json → Json → Bool
  | .null, .null => true
  | .bool a, .bool b => a == b
  | .number a, .number b => a == b
  | .string a, .string b => a == b
  | .array a, .array b => sameValues a b
  | .object a, .object b => sameMembers a b
  | _, _ => false

def sameValues : List Json → List Json → Bool
  | [], [] => true
  | a :: as, b :: bs => same a b && sameValues as bs
  | _, _ => false

def sameMembers : List (List Char × Json) → List (List Char × Json) → Bool
  | [], [] => true
  | (k, a) :: as, (l, b) :: bs => k == l && same a b && sameMembers as bs
  | _, _ => false
end

/-- `Array(partial_json)` -/
def arrayOf : Option Json → List Json
  | none => []
  | some .null => []
  | some (.array items) => items
  | some (.object members) => members.map fun m => .array [.string m.1, m.2]
  | some item => [item]

/-- Each value once. -/
def unique (actors : List Json) : List Json :=
  actors.foldl (fun unique a => if unique.any (same a) then unique else unique ++ [a]) []

def delete (candidate : String) (actors : List Json) : List Json × Bool :=
  let rest := actors.filter fun a => decide (asString a ≠ some candidate)
  (rest, rest.length ≠ actors.length)

def deleteAll : List String → List Json → List Json × Bool
  | [], actors => (actors, false)
  | candidate :: candidates, actors =>
      let first := delete candidate actors
      let rest := deleteAll candidates first.1
      (rest.1, first.2 || rest.2)

def featureSub (actor : Actor) (value : Option Json) : BitVec 32 :=
  match deleteAll publicCollections (unique (arrayOf value)) with
  | (actors, isPublic) =>
      match delete actor.followers actors with
      | (actors, isFollowers) =>
          match delete actor.following actors with
          | (actors, isFollowing) =>
              match delete actor.id actors with
              | (actors, includesTargetActor) =>
                  let flags := flagIf isPublic publicPolicy ||| flagIf isFollowers followersPolicy |||
                    flagIf isFollowing followingPolicy ||| flagIf (!actors.isEmpty) unsupportedPolicy
                  if flags = 0 ∧ includesTargetActor = true then flags ||| disabledPolicy else flags

def blankPolicy : Option Json → Bool
  | none => true
  | some .null => true
  | some (.object members) => members.isEmpty
  | some (.array values) => values.isEmpty
  | some (.string s) => blank (String.ofList s)
  | some _ => false

/-- `feature_policy::parse` -/
def featureParse (policy : Option Json) (actor : Actor) : BitVec 32 :=
  match policy.filter fun _ => !blankPolicy policy with
  | none => 0
  | some policy =>
      featureSub actor (member "automaticApproval" policy) <<< 16 |||
        featureSub actor (member "manualApproval" policy)

/-! ### What the flags should say -/

/-- What a list names: `none` for what is no name. -/
abbrev Named : Type := List (Option String)

variable (actor : Actor) (named : Named)

/-- The public collection, a collection of the actor that is not empty, or the actor. -/
def Recognized (name : Option String) : Prop :=
  (∃ p ∈ publicCollections, name = some p) ∨
    (actor.followers ≠ "" ∧ name = some actor.followers) ∨
    (actor.following ≠ "" ∧ name = some actor.following) ∨ name = some actor.id

structure Exact (flags : BitVec 32) : Prop where
  pub : flags &&& publicPolicy ≠ 0 ↔ ∃ p ∈ publicCollections, some p ∈ named
  followers : flags &&& followersPolicy ≠ 0 ↔
    actor.followers ≠ "" ∧ some actor.followers ∈ named
  following : flags &&& followingPolicy ≠ 0 ↔
    actor.following ≠ "" ∧ some actor.following ∈ named
  unsupported : flags &&& unsupportedPolicy ≠ 0 ↔ ∃ name ∈ named, ¬ Recognized actor name

def InAudience (followsAuthor followedByAuthor : Bool) : Prop :=
  (∃ p ∈ publicCollections, some p ∈ named) ∨
    (actor.followers ≠ "" ∧ some actor.followers ∈ named ∧ followsAuthor = true) ∨
    (actor.following ≠ "" ∧ some actor.following ∈ named ∧ followedByAuthor = true)

/-- Both halves are exact, and no one outside the audiences of a half is let in by it. -/
structure NotWidened (auto manually : Named) (bitmap : BitVec 32) : Prop where
  automatic : Exact actor auto (automatic bitmap)
  manual : Exact actor manually (manual bitmap)
  onlyAutomatic : ∀ isAuthor follows followed,
    forAccount bitmap isAuthor follows followed = .automatic →
      isAuthor = true ∨ InAudience actor auto follows followed
  onlyManual : ∀ isAuthor follows followed,
    forAccount bitmap isAuthor follows followed = .manual →
      isAuthor = true ∨ InAudience actor manually follows followed

def quoteHalf (object : Json) (key : String) : Named :=
  (quoteNames ((canQuote object).bind (member key))).map some

def featureHalf (policy : Option Json) (key : String) : Named :=
  (arrayOf (policy.bind (member key))).map asString

/-- A collection that is named is no other name for the public, nor are they one, and with an
actor that has no id an empty name is not all there is to be unsupported. -/
structure QuotePlain : Prop where
  followers : actor.followers ≠ "" → some actor.followers ∈ named →
    actor.followers ∉ publicCollections
  following : actor.following ≠ "" → some actor.following ∈ named →
    actor.following ∉ publicCollections ∧ actor.following ≠ actor.followers
  empty : actor.id = "" → some "" ∈ named → ∃ name ∈ named, ¬ Recognized actor name

/-- A collection that is named is not empty and no other name for the public, nor are they one. -/
structure FeaturePlain : Prop where
  followers : some actor.followers ∈ named →
    actor.followers ≠ "" ∧ actor.followers ∉ publicCollections
  following : some actor.following ∈ named →
    actor.following ≠ "" ∧ actor.following ∉ publicCollections ∧
      actor.following ≠ actor.followers

/-! ### Bits -/

/-- The flags of a half. -/
def bits (pub followers following unsupported disabled : Bool) : BitVec 32 :=
  flagIf pub publicPolicy ||| flagIf followers followersPolicy ||| flagIf following followingPolicy |||
    flagIf unsupported unsupportedPolicy ||| flagIf disabled disabledPolicy

theorem bits_pub (p f g u d : Bool) : bits p f g u d &&& publicPolicy ≠ 0 ↔ p = true := by
  revert p f g u d
  decide

theorem bits_followers (p f g u d : Bool) : bits p f g u d &&& followersPolicy ≠ 0 ↔ f = true := by
  revert p f g u d
  decide

theorem bits_following (p f g u d : Bool) : bits p f g u d &&& followingPolicy ≠ 0 ↔ g = true := by
  revert p f g u d
  decide

theorem bits_unsupported (p f g u d : Bool) :
    bits p f g u d &&& unsupportedPolicy ≠ 0 ↔ u = true := by
  revert p f g u d
  decide

theorem bits_without (p f g u : Bool) : bits p f g u false =
    flagIf p publicPolicy ||| flagIf f followersPolicy ||| flagIf g followingPolicy |||
      flagIf u unsupportedPolicy := by
  revert p f g u
  decide

/-- A half is some set of flags. -/
def IsBits (v : BitVec 32) : Prop := ∃ p f g u d, v = bits p f g u d

theorem automatic_packed {a m : BitVec 32} (ha : IsBits a) (hm : IsBits m) :
    automatic (a <<< 16 ||| m) = a := by
  obtain ⟨p, f, g, u, d, rfl⟩ := ha
  obtain ⟨p', f', g', u', d', rfl⟩ := hm
  revert p f g u d p' f' g' u' d'
  decide +kernel

theorem manual_packed {a m : BitVec 32} (ha : IsBits a) (hm : IsBits m) :
    manual (a <<< 16 ||| m) = m := by
  obtain ⟨p, f, g, u, d, rfl⟩ := ha
  obtain ⟨p', f', g', u', d', rfl⟩ := hm
  revert p f g u d p' f' g' u' d'
  decide +kernel

/-! ### Striking off -/

theorem mem_take {candidates actors : List String} {x : String} :
    x ∈ (take candidates actors).1 ↔ x ∈ actors ∧ (x ∉ candidates ∨ x = "") := by
  simp [take]

theorem take_found {candidates actors : List String} :
    (take candidates actors).2 = true ↔ ∃ x ∈ actors, x ∈ candidates ∧ x ≠ "" := by
  rw [take]
  dsimp only
  rw [decide_eq_true_iff, ne_eq, List.length_filter_eq_length_iff]
  simp

theorem mem_takeNonempty {c x : String} {actors : List String} :
    x ∈ (takeNonempty c actors).1 ↔ x ∈ actors ∧ (c ≠ "" → x ≠ c) := by
  rw [takeNonempty]
  by_cases hc : c = ""
  · simp [hc]
  · have hempty : c.isEmpty = false := by simpa using hc
    rw [hempty, if_neg Bool.false_ne_true, mem_take]
    refine and_congr_right fun _ => ?_
    constructor
    · rintro (h | rfl) _
      · exact fun heq => h (List.mem_singleton.mpr heq)
      · exact Ne.symm hc
    · intro h
      exact .inl fun hx => h hc (List.mem_singleton.mp hx)

theorem takeNonempty_found {c : String} {actors : List String} :
    (takeNonempty c actors).2 = true ↔ c ≠ "" ∧ c ∈ actors := by
  rw [takeNonempty]
  by_cases hc : c = ""
  · simp [hc]
  · have hempty : c.isEmpty = false := by simpa using hc
    rw [hempty, if_neg Bool.false_ne_true, take_found]
    constructor
    · rintro ⟨x, hx, hxc, _⟩
      rw [List.mem_singleton] at hxc
      exact ⟨hc, hxc ▸ hx⟩
    · rintro ⟨_, h⟩
      exact ⟨c, h, List.mem_singleton_self c, hc⟩

theorem mem_sortDedup {x : String} {names : List String} : x ∈ sortDedup names ↔ x ∈ names := by
  rw [sortDedup, List.mem_dedup, List.mem_mergeSort]

theorem ne_empty_of_public {x : String} (h : x ∈ publicCollections) : x ≠ "" := by
  rintro rfl
  revert h
  decide

structure QuoteFlags (names : List String) (p f g u : Bool) : Prop where
  pub : p = true ↔ ∃ x ∈ names, x ∈ publicCollections
  followers : f = true ↔ actor.followers ≠ "" ∧ actor.followers ∈ names ∧
    actor.followers ∉ publicCollections
  following : g = true ↔ actor.following ≠ "" ∧ actor.following ∈ names ∧
    actor.following ∉ publicCollections ∧ actor.following ≠ actor.followers
  unsupported : u = true ↔ ∃ x ∈ names, x = "" ∨ x ∉ publicCollections ∧
    (actor.followers ≠ "" → x ≠ actor.followers) ∧
    (actor.following ≠ "" → x ≠ actor.following) ∧ x ≠ actor.id

variable {actor named}

variable (actor) in
theorem quoteSub_bits (value : Option Json) : ∃ p f g u,
    quoteSub actor value = bits p f g u false ∧ QuoteFlags actor (quoteNames value) p f g u := by
  let first := take publicCollections (sortDedup (quoteNames value))
  let second := takeNonempty actor.followers first.1
  let third := takeNonempty actor.following second.1
  let last := take [actor.id] third.1
  have hfirst : ∀ x, x ∈ first.1 ↔ x ∈ quoteNames value ∧ x ∉ publicCollections := by
    intro x
    rw [mem_take, mem_sortDedup]
    refine and_congr_right fun _ => ⟨?_, .inl⟩
    rintro (h | rfl)
    · exact h
    · exact fun h => ne_empty_of_public h rfl
  refine ⟨first.2, second.2, third.2, !last.1.isEmpty, (bits_without _ _ _ _).symm, ?_⟩
  constructor
  · rw [take_found]
    constructor
    · rintro ⟨x, hx, hpub, _⟩
      exact ⟨x, mem_sortDedup.mp hx, hpub⟩
    · rintro ⟨x, hx, hpub⟩
      exact ⟨x, mem_sortDedup.mpr hx, hpub, ne_empty_of_public hpub⟩
  · rw [takeNonempty_found, hfirst]
  · rw [takeNonempty_found, mem_takeNonempty, hfirst]
    refine and_congr_right fun hne => ?_
    rw [and_assoc]
    refine and_congr_right fun _ => and_congr_right fun _ => ⟨fun h heq => ?_, fun h _ => h⟩
    exact h (heq ▸ hne) heq
  · rw [Bool.not_eq_true', List.isEmpty_eq_false_iff_exists_mem]
    constructor
    · rintro ⟨x, hx⟩
      rw [mem_take, mem_takeNonempty, mem_takeNonempty, hfirst] at hx
      obtain ⟨⟨⟨⟨hname, hpub⟩, hfollowers⟩, hfollowing⟩, hid⟩ := hx
      refine ⟨x, hname, ?_⟩
      rcases hid with hid | hempty
      · exact .inr ⟨hpub, hfollowers, hfollowing, fun h => hid (List.mem_singleton.mpr h)⟩
      · exact .inl hempty
    · rintro ⟨x, hname, h⟩
      refine ⟨x, ?_⟩
      rw [mem_take, mem_takeNonempty, mem_takeNonempty, hfirst]
      rcases h with rfl | ⟨hpub, hfollowers, hfollowing, hid⟩
      · exact ⟨⟨⟨⟨hname, fun h => ne_empty_of_public h rfl⟩, Ne.symm⟩, Ne.symm⟩, .inr rfl⟩
      · exact ⟨⟨⟨⟨hname, hpub⟩, hfollowers⟩, hfollowing⟩,
          .inl fun h => hid (List.mem_singleton.mp h)⟩

theorem mem_delete {c : String} {actors : List Json} {v : Json} :
    v ∈ (delete c actors).1 ↔ v ∈ actors ∧ asString v ≠ some c := by
  simp [delete]

theorem delete_found {c : String} {actors : List Json} :
    (delete c actors).2 = true ↔ ∃ v ∈ actors, asString v = some c := by
  rw [delete]
  dsimp only
  rw [decide_eq_true_iff, ne_eq, List.length_filter_eq_length_iff]
  simp

theorem mem_deleteAll {candidates : List String} {actors : List Json} {v : Json} :
    v ∈ (deleteAll candidates actors).1 ↔
      v ∈ actors ∧ ∀ c ∈ candidates, asString v ≠ some c := by
  induction candidates generalizing actors with
  | nil => simp [deleteAll]
  | cons c candidates ih =>
      rw [deleteAll]
      dsimp only
      rw [ih, mem_delete, List.forall_mem_cons, and_assoc]

theorem deleteAll_found {candidates : List String} {actors : List Json} :
    (deleteAll candidates actors).2 = true ↔
      ∃ v ∈ actors, ∃ c ∈ candidates, asString v = some c := by
  induction candidates generalizing actors with
  | nil => simp [deleteAll]
  | cons c candidates ih =>
      rw [deleteAll]
      dsimp only
      rw [Bool.or_eq_true, delete_found, ih]
      constructor
      · rintro (⟨v, hv, h⟩ | ⟨v, hv, d, hd, h⟩)
        · exact ⟨v, hv, c, List.mem_cons_self, h⟩
        · exact ⟨v, (mem_delete.mp hv).1, d, List.mem_cons_of_mem c hd, h⟩
      · rintro ⟨v, hv, d, hd, h⟩
        by_cases hc : asString v = some c
        · exact .inl ⟨v, hv, hc⟩
        · rcases List.mem_cons.mp hd with rfl | hd
          · exact (hc h).elim
          · exact .inr ⟨v, mem_delete.mpr ⟨hv, hc⟩, d, hd, h⟩

theorem asString_of_same {a b : Json} (h : same a b = true) : asString a = asString b := by
  cases a with
  | string s =>
      cases b with
      | string t =>
          rw [same, beq_iff_eq] at h
          rw [h]
      | _ => cases h
  | _ =>
      cases b with
      | string t => cases h
      | _ => rfl

theorem mem_unique {name : Option String} (actors : List Json) :
    name ∈ (unique actors).map asString ↔ name ∈ actors.map asString := by
  suffices hfold : ∀ acc : List Json,
      name ∈ (actors.foldl (fun unique a =>
        if unique.any (same a) then unique else unique ++ [a]) acc).map asString ↔
      name ∈ acc.map asString ∨ name ∈ actors.map asString by
    rw [unique, hfold]
    simp
  induction actors with
  | nil =>
      intro acc
      simp
  | cons a actors ih =>
      intro acc
      rw [List.foldl_cons, ih, List.map_cons, List.mem_cons]
      split
      next hany =>
        obtain ⟨b, hb, hsame⟩ := List.any_eq_true.mp hany
        have hname : asString a ∈ acc.map asString :=
          asString_of_same hsame ▸ List.mem_map_of_mem hb
        constructor
        · exact fun h => h.imp_right .inr
        · rintro (h | rfl | h)
          · exact .inl h
          · exact .inl hname
          · exact .inr h
      next =>
        rw [List.map_append, List.mem_append, List.map_singleton, List.mem_singleton, or_assoc]

structure FeatureFlags (actor : Actor) (named : Named) (p f g u : Bool) : Prop where
  pub : p = true ↔ ∃ x ∈ publicCollections, some x ∈ named
  followers : f = true ↔ some actor.followers ∈ named ∧ actor.followers ∉ publicCollections
  following : g = true ↔ some actor.following ∈ named ∧ actor.following ∉ publicCollections ∧
    actor.following ≠ actor.followers
  unsupported : u = true ↔ ∃ name ∈ named, (∀ c ∈ publicCollections, name ≠ some c) ∧
    name ≠ some actor.followers ∧ name ≠ some actor.following ∧ name ≠ some actor.id

variable (actor) in
theorem featureSub_bits (value : Option Json) : ∃ p f g u d,
    featureSub actor value = bits p f g u d ∧
      FeatureFlags actor ((arrayOf value).map asString) p f g u := by
  let first := deleteAll publicCollections (unique (arrayOf value))
  let second := delete actor.followers first.1
  let third := delete actor.following second.1
  let last := delete actor.id third.1
  let flags := flagIf first.2 publicPolicy ||| flagIf second.2 followersPolicy |||
    flagIf third.2 followingPolicy ||| flagIf (!last.1.isEmpty) unsupportedPolicy
  have hnamed : ∀ name : Option String, (∃ v ∈ unique (arrayOf value), asString v = name) ↔
      name ∈ (arrayOf value).map asString := fun name => by
    rw [← mem_unique, List.mem_map]
  have hfound : ∀ c, (∃ v ∈ first.1, asString v = some c) ↔
      some c ∈ (arrayOf value).map asString ∧ c ∉ publicCollections := by
    intro c
    rw [← hnamed]
    constructor
    · rintro ⟨v, hv, hc⟩
      obtain ⟨hmem, hnot⟩ := mem_deleteAll.mp hv
      exact ⟨⟨v, hmem, hc⟩, fun h => hnot c h hc⟩
    · rintro ⟨⟨v, hv, hc⟩, hpub⟩
      refine ⟨v, mem_deleteAll.mpr ⟨hv, fun d hd heq => hpub ?_⟩, hc⟩
      rw [hc] at heq
      exact Option.some.inj heq ▸ hd
  have hflags : featureSub actor value =
      if flags = 0 ∧ last.2 = true then flags ||| disabledPolicy else flags := rfl
  have hbits : bits first.2 second.2 third.2 (!last.1.isEmpty) (decide (flags = 0 ∧ last.2 = true)) =
      flags ||| flagIf (decide (flags = 0 ∧ last.2 = true)) disabledPolicy := rfl
  refine ⟨first.2, second.2, third.2, !last.1.isEmpty, decide (flags = 0 ∧ last.2 = true), ?_, ?_⟩
  · rw [hflags, hbits, flagIf]
    by_cases h : flags = 0 ∧ last.2 = true
    · rw [if_pos h, if_pos (decide_eq_true h)]
    · rw [if_neg h, if_neg (by simpa using h)]
      exact BitVec.or_zero.symm
  · constructor
    · rw [deleteAll_found]
      constructor
      · rintro ⟨v, hv, c, hc, h⟩
        exact ⟨c, hc, (hnamed _).mp ⟨v, hv, h⟩⟩
      · rintro ⟨c, hc, h⟩
        obtain ⟨v, hv, hvc⟩ := (hnamed _).mpr h
        exact ⟨v, hv, c, hc, hvc⟩
    · rw [delete_found, hfound]
    · rw [delete_found, ← and_assoc, ← hfound]
      constructor
      · rintro ⟨v, hv, h⟩
        obtain ⟨hmem, hne⟩ := mem_delete.mp hv
        exact ⟨⟨v, hmem, h⟩, fun heq => hne (heq ▸ h)⟩
      · rintro ⟨⟨v, hv, h⟩, hne⟩
        refine ⟨v, mem_delete.mpr ⟨hv, fun heq => hne ?_⟩, h⟩
        exact Option.some.inj (h.symm.trans heq)
    · rw [Bool.not_eq_true', List.isEmpty_eq_false_iff_exists_mem]
      constructor
      · rintro ⟨v, hv⟩
        rw [mem_delete, mem_delete, mem_delete, mem_deleteAll] at hv
        obtain ⟨⟨⟨⟨hmem, hpub⟩, hfollowers⟩, hfollowing⟩, hid⟩ := hv
        exact ⟨asString v, (hnamed _).mp ⟨v, hmem, rfl⟩, hpub, hfollowers, hfollowing, hid⟩
      · rintro ⟨name, hname, hpub, hfollowers, hfollowing, hid⟩
        obtain ⟨v, hv, rfl⟩ := (hnamed _).mpr hname
        refine ⟨v, ?_⟩
        rw [mem_delete, mem_delete, mem_delete, mem_deleteAll]
        exact ⟨⟨⟨⟨hv, hpub⟩, hfollowers⟩, hfollowing⟩, hid⟩

/-! ### Exactness -/

theorem mem_map_some {x : String} {names : List String} : some x ∈ names.map some ↔ x ∈ names := by
  simp

theorem recognized_some {x : String} : Recognized actor (some x) ↔ x ∈ publicCollections ∨
    (actor.followers ≠ "" ∧ x = actor.followers) ∨
    (actor.following ≠ "" ∧ x = actor.following) ∨ x = actor.id := by
  simp [Recognized]

theorem quote_exact_iff {names : List String} {p f g u : Bool}
    (h : QuoteFlags actor names p f g u) :
    Exact actor (names.map some) (bits p f g u false) ↔ QuotePlain actor (names.map some) := by
  -- an empty name is left over, and so is one that is not recognized
  have hleft : u = true ↔ "" ∈ names ∨ ∃ name ∈ names.map some, ¬ Recognized actor name := by
    rw [h.unsupported]
    constructor
    · rintro ⟨x, hx, hempty | ⟨hpub, hfollowers, hfollowing, hid⟩⟩
      · exact .inl (hempty ▸ hx)
      · refine .inr ⟨some x, mem_map_some.mpr hx, ?_⟩
        rw [recognized_some]
        rintro (h | h | h | h)
        · exact hpub h
        · exact hfollowers h.1 h.2
        · exact hfollowing h.1 h.2
        · exact hid h
    · rintro (hempty | ⟨name, hname, hnot⟩)
      · exact ⟨"", hempty, .inl rfl⟩
      · obtain ⟨x, hx, rfl⟩ := List.mem_map.mp hname
        rw [recognized_some, not_or, not_or, not_or, not_and, not_and] at hnot
        exact ⟨x, hx, .inr hnot⟩
  constructor
  · intro he
    have hf := (bits_followers p f g u false).symm.trans he.followers
    have hg := (bits_following p f g u false).symm.trans he.following
    have hu := (bits_unsupported p f g u false).symm.trans he.unsupported
    refine ⟨fun hne hmem => ?_, fun hne hmem => ?_, fun _ hmem => ?_⟩
    · exact (h.followers.mp (hf.mpr ⟨hne, hmem⟩)).2.2
    · exact (h.following.mp (hg.mpr ⟨hne, hmem⟩)).2.2
    · exact hu.mp (hleft.mpr (.inl (mem_map_some.mp hmem)))
  · intro hplain
    constructor
    · rw [bits_pub, h.pub]
      constructor
      · rintro ⟨x, hx, hpub⟩
        exact ⟨x, hpub, mem_map_some.mpr hx⟩
      · rintro ⟨x, hpub, hx⟩
        exact ⟨x, mem_map_some.mp hx, hpub⟩
    · rw [bits_followers, h.followers, mem_map_some]
      refine and_congr_right fun hne => ⟨fun h => h.1, fun hmem => ⟨hmem, ?_⟩⟩
      exact hplain.followers hne (mem_map_some.mpr hmem)
    · rw [bits_following, h.following, mem_map_some]
      refine and_congr_right fun hne => ⟨fun h => h.1, fun hmem => ⟨hmem, ?_⟩⟩
      exact hplain.following hne (mem_map_some.mpr hmem)
    · rw [bits_unsupported, hleft]
      refine ⟨?_, .inr⟩
      rintro (hempty | hothers)
      · by_cases hid : actor.id = ""
        · exact hplain.empty hid (mem_map_some.mpr hempty)
        · refine ⟨some "", mem_map_some.mpr hempty, ?_⟩
          rw [recognized_some]
          rintro (h | h | h | h)
          · exact ne_empty_of_public h rfl
          · exact h.1 h.2.symm
          · exact h.1 h.2.symm
          · exact hid h.symm
      · exact hothers

theorem feature_exact_iff {p f g u d : Bool} (h : FeatureFlags actor named p f g u) :
    Exact actor named (bits p f g u d) ↔ FeaturePlain actor named := by
  constructor
  · intro he
    have hf := (bits_followers p f g u d).symm.trans he.followers
    have hg := (bits_following p f g u d).symm.trans he.following
    have hfollowers : some actor.followers ∈ named →
        actor.followers ≠ "" ∧ actor.followers ∉ publicCollections := by
      intro hmem
      by_cases hne : actor.followers = ""
      · have hset := h.followers.mpr ⟨hmem, fun hpub => ne_empty_of_public hpub hne⟩
        exact absurd hne (hf.mp hset).1
      · exact ⟨hne, (h.followers.mp (hf.mpr ⟨hne, hmem⟩)).2⟩
    refine ⟨hfollowers, fun hmem => ?_⟩
    by_cases hne : actor.following = ""
    · by_cases hsame : actor.following = actor.followers
      · exact absurd (hsame.symm.trans hne) (hfollowers (hsame ▸ hmem)).1
      · have hset := h.following.mpr ⟨hmem, fun hpub => ne_empty_of_public hpub hne, hsame⟩
        exact absurd hne (hg.mp hset).1
    · exact ⟨hne, (h.following.mp (hg.mpr ⟨hne, hmem⟩)).2⟩
  · intro hplain
    constructor
    · rw [bits_pub, h.pub]
    · rw [bits_followers, h.followers]
      exact ⟨fun h => ⟨(hplain.followers h.1).1, h.1⟩, fun h => ⟨h.2, (hplain.followers h.2).2⟩⟩
    · rw [bits_following, h.following]
      exact ⟨fun h => ⟨(hplain.following h.1).1, h.1⟩, fun h => ⟨h.2, (hplain.following h.2).2⟩⟩
    · rw [bits_unsupported, h.unsupported]
      refine exists_congr fun name => and_congr_right fun hname => ?_
      constructor
      · rintro ⟨hpub, hfollowers, hfollowing, hid⟩ (⟨c, hc, heq⟩ | h | h | h)
        · exact hpub c hc heq
        · exact hfollowers h.2
        · exact hfollowing h.2
        · exact hid h
      · intro hnot
        refine ⟨fun c hc heq => hnot (.inl ⟨c, hc, heq⟩), ?_, ?_,
          fun heq => hnot (.inr (.inr (.inr heq)))⟩
        · rintro rfl
          exact hnot (.inr (.inl ⟨(hplain.followers hname).1, rfl⟩))
        · rintro rfl
          exact hnot (.inr (.inr (.inl ⟨(hplain.following hname).1, rfl⟩)))

/-! ### Who is let in -/

theorem inAudience_of_exact {flags : BitVec 32} (h : Exact actor named flags)
    {follows followed : Bool}
    (hallows : ((flags &&& publicPolicy != 0) || (flags &&& followersPolicy != 0 && follows) ||
      (flags &&& followingPolicy != 0 && followed)) = true) :
    InAudience actor named follows followed := by
  rw [Bool.or_eq_true, Bool.or_eq_true, Bool.and_eq_true, Bool.and_eq_true, bne_iff_ne, bne_iff_ne,
    bne_iff_ne] at hallows
  rcases hallows with (hpub | ⟨hfollowers, hfollows⟩) | ⟨hfollowing, hfollowed⟩
  · exact .inl (h.pub.mp hpub)
  · have hnamed := h.followers.mp hfollowers
    exact .inr (.inl ⟨hnamed.1, hnamed.2, hfollows⟩)
  · have hnamed := h.following.mp hfollowing
    exact .inr (.inr ⟨hnamed.1, hnamed.2, hfollowed⟩)

theorem notWidened_iff {auto manually : Named} {bitmap : BitVec 32} :
    NotWidened actor auto manually bitmap ↔
      Exact actor auto (automatic bitmap) ∧ Exact actor manually (manual bitmap) := by
  refine ⟨fun h => ⟨h.automatic, h.manual⟩, fun ⟨hauto, hmanual⟩ => ⟨hauto, hmanual, ?_, ?_⟩⟩
  · intro isAuthor follows followed h
    cases isAuthor with
    | true => exact .inl rfl
    | false =>
        rw [forAccount, if_neg Bool.false_ne_true] at h
        dsimp only at h
        split at h
        next hallows => exact .inr (inAudience_of_exact hauto hallows)
        next =>
          split at h
          · cases h
          · split at h <;> cases h
  · intro isAuthor follows followed h
    cases isAuthor with
    | true => exact .inl rfl
    | false =>
        rw [forAccount, if_neg Bool.false_ne_true] at h
        dsimp only at h
        split at h
        · cases h
        · split at h
          next hallows => exact .inr (inAudience_of_exact hmanual hallows)
          next => split at h <;> cases h

theorem quoteSub_none : quoteSub actor none = 0 := by
  obtain ⟨p, f, g, u, hbits, hflags⟩ := quoteSub_bits actor none
  have hp : p = false := by
    rw [← Bool.not_eq_true, hflags.pub]
    rintro ⟨x, hx, _⟩
    cases hx
  have hf : f = false := by
    rw [← Bool.not_eq_true, hflags.followers]
    rintro ⟨_, hx, _⟩
    cases hx
  have hg : g = false := by
    rw [← Bool.not_eq_true, hflags.following]
    rintro ⟨_, hx, _⟩
    cases hx
  have hu : u = false := by
    rw [← Bool.not_eq_true, hflags.unsupported]
    rintro ⟨x, hx, _⟩
    cases hx
  rw [hbits, hp, hf, hg, hu]
  rfl

theorem featureSub_none : featureSub actor none = 0 := by
  simp [featureSub, arrayOf, unique, deleteAll, delete, publicCollections, flagIf]

theorem quoteParse_eq (object : Json) : quoteParse object actor =
    quoteSub actor ((canQuote object).bind (member "automaticApproval")) <<< 16 |||
      quoteSub actor ((canQuote object).bind (member "manualApproval")) := by
  rw [quoteParse]
  cases canQuote object with
  | none =>
      rw [Option.bind_none, Option.bind_none, quoteSub_none]
      rfl
  | some policy => rfl

theorem member_of_blank {policy : Json} (h : blankPolicy (some policy) = true) (key : String) :
    member key policy = none := by
  cases policy with
  | object members =>
      rw [blankPolicy, List.isEmpty_iff] at h
      rw [h]
      rfl
  | _ => rfl

theorem featureParse_eq (policy : Option Json) : featureParse policy actor =
    featureSub actor (policy.bind (member "automaticApproval")) <<< 16 |||
      featureSub actor (policy.bind (member "manualApproval")) := by
  rw [featureParse]
  cases policy with
  | none =>
      rw [Option.bind_none, Option.bind_none, featureSub_none]
      rfl
  | some policy =>
      rw [Option.filter_some, Option.bind_some, Option.bind_some]
      cases hblank : blankPolicy (some policy) with
      | true =>
          rw [member_of_blank hblank, member_of_blank hblank, featureSub_none]
          rfl
      | false => rfl

/-- A policy is read as it stands when what its halves name is told apart: for quotes, when no
collection that is named is one of the others; for features, when none is empty besides. -/
theorem policies_notWidened_iff (actor : Actor) (object : Json) (policy : Option Json) :
    (NotWidened actor (quoteHalf object "automaticApproval") (quoteHalf object "manualApproval")
        (quoteParse object actor) ↔
      QuotePlain actor (quoteHalf object "automaticApproval") ∧
        QuotePlain actor (quoteHalf object "manualApproval")) ∧
    (NotWidened actor (featureHalf policy "automaticApproval") (featureHalf policy "manualApproval")
        (featureParse policy actor) ↔
      FeaturePlain actor (featureHalf policy "automaticApproval") ∧
        FeaturePlain actor (featureHalf policy "manualApproval")) := by
  constructor
  · obtain ⟨p, f, g, u, hauto, hautoFlags⟩ :=
      quoteSub_bits actor ((canQuote object).bind (member "automaticApproval"))
    obtain ⟨p', f', g', u', hmanual, hmanualFlags⟩ :=
      quoteSub_bits actor ((canQuote object).bind (member "manualApproval"))
    rw [notWidened_iff, quoteParse_eq, hauto, hmanual,
      automatic_packed ⟨p, f, g, u, false, rfl⟩ ⟨p', f', g', u', false, rfl⟩,
      manual_packed ⟨p, f, g, u, false, rfl⟩ ⟨p', f', g', u', false, rfl⟩]
    exact and_congr (quote_exact_iff hautoFlags) (quote_exact_iff hmanualFlags)
  · obtain ⟨p, f, g, u, d, hauto, hautoFlags⟩ :=
      featureSub_bits actor (policy.bind (member "automaticApproval"))
    obtain ⟨p', f', g', u', d', hmanual, hmanualFlags⟩ :=
      featureSub_bits actor (policy.bind (member "manualApproval"))
    rw [notWidened_iff, featureParse_eq, hauto, hmanual,
      automatic_packed ⟨p, f, g, u, d, rfl⟩ ⟨p', f', g', u', d', rfl⟩,
      manual_packed ⟨p, f, g, u, d, rfl⟩ ⟨p', f', g', u', d', rfl⟩]
    exact and_congr (feature_exact_iff hautoFlags) (feature_exact_iff hmanualFlags)

/-! ### An empty name -/

def hidden : Actor := ⟨"", "", "a"⟩

/-- A list that names nothing but the empty string. -/
def emptyName : Json := .object [("automaticApproval".toList, .array [.string []])]

example : featureParse (some emptyName) hidden = followersPolicy <<< 16 := by decide +kernel

/-- The followers are let in by a list that does not name them. -/
theorem widened_by_empty_name :
    ¬ NotWidened hidden (featureHalf (some emptyName) "automaticApproval")
      (featureHalf (some emptyName) "manualApproval") (featureParse (some emptyName) hidden) := by
  intro h
  have hflag : automatic (featureParse (some emptyName) hidden) &&& followersPolicy ≠ 0 := by
    decide +kernel
  exact (h.automatic.followers.mp hflag).1 rfl

end Eunha.InteractionPolicies
