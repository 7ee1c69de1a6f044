import Mathlib.Data.List.Dedup
import Eunha.NoteReading

/-!
# What a built note says

What `build_note` puts under a key, and what the parser of another server's notes reads
there: stage by stage, where a stage leaves a key alone and where it writes it.
-/
namespace Eunha.NoteMembers
open JsonText (Value)
open Notes

section
variable {e : Env} {db : Db} {author : Account} {s : Status} {note : Members} {key : String}

/-! ### What the stages leave alone -/

theorem lookup_setMember_congr {members : Members} (other : String) (value : Json)
    (h : note.lookup key = members.lookup key) :
    (setMember other value note).lookup key = (setMember other value members).lookup key := by
  rw [lookup_setMember, lookup_setMember, h]

theorem lookup_withEnd_congr {members : Members} (poll : Poll)
    (h : note.lookup key = members.lookup key) :
    (withEnd e poll note).lookup key = (withEnd e poll members).lookup key := by
  rw [withEnd, withEnd]
  cases poll.expiresAt with
  | none => exact h
  | some expiresAt =>
      dsimp only
      split
      · exact lookup_setMember_congr _ _ (lookup_setMember_congr _ _ h)
      · exact lookup_setMember_congr _ _ h

theorem lookup_withQuoted_congr {members : Members} (quoted : Option String)
    (h : note.lookup key = members.lookup key) :
    (withQuoted quoted note).lookup key = (withQuoted quoted members).lookup key := by
  cases quoted with
  | none => exact lookup_setMember_congr _ _ h
  | some uri =>
      exact lookup_setMember_congr _ _ (lookup_setMember_congr _ _ (lookup_setMember_congr _ _ h))

theorem lookup_withPolicy (hkey : key ≠ "interactionPolicy") :
    (withPolicy e author s note).lookup key = note.lookup key := by
  rw [withPolicy, lookup_setMember, if_neg hkey]

theorem lookup_withStamp (stamp : Option String) (hkey : key ≠ "quoteAuthorization") :
    (withStamp stamp note).lookup key = note.lookup key := by
  cases stamp with
  | none => rfl
  | some stamp => rw [withStamp, lookup_setMember, if_neg hkey]

theorem lookup_withQuoted (quoted : Option String)
    (hkey : key ∉ ["quote", "_misskey_quote", "quoteUri"]) :
    (withQuoted quoted note).lookup key = note.lookup key := by
  simp only [List.mem_cons, List.not_mem_nil, or_false, not_or] at hkey
  cases quoted with
  | none => rw [withQuoted, lookup_setMember, if_neg hkey.1]
  | some uri =>
      rw [withQuoted, lookup_setMember, if_neg hkey.2.2, lookup_setMember, if_neg hkey.2.1,
        lookup_setMember, if_neg hkey.1]

theorem lookup_withQuote
    (hkey : key ∉ ["quote", "_misskey_quote", "quoteUri", "quoteAuthorization"]) :
    (withQuote e db s note).lookup key = note.lookup key := by
  rw [withQuote]
  cases quoteOf db s with
  | none => rfl
  | some quote =>
      simp only [List.mem_cons, List.not_mem_nil, or_false, not_or] at hkey
      dsimp only
      rw [lookup_withStamp _ hkey.2.2.2, lookup_withQuoted]
      simp [hkey]

theorem lookup_withEdited (hkey : key ≠ "updated") :
    (withEdited e s note).lookup key = note.lookup key := by
  rw [withEdited]
  cases s.editedAt with
  | none => rfl
  | some edited => exact (lookup_setMember ..).trans (if_neg hkey)

theorem lookup_withLanguage (hkey : key ≠ "contentMap") :
    (withLanguage e s note).lookup key = note.lookup key := by
  rw [withLanguage]
  cases s.language.filter (· ≠ "") with
  | none => rfl
  | some language => exact (lookup_setMember ..).trans (if_neg hkey)

theorem lookup_withVoters (poll : Poll) (hkey : key ≠ "votersCount") :
    (withVoters poll note).lookup key = note.lookup key := by
  rw [withVoters]
  cases poll.votersCount with
  | none => rfl
  | some votersCount => exact (lookup_setMember ..).trans (if_neg hkey)

theorem lookup_withEnd (poll : Poll) (hend : key ≠ "endTime") (hclosed : key ≠ "closed") :
    (withEnd e poll note).lookup key = note.lookup key := by
  rw [withEnd]
  cases poll.expiresAt with
  | none => rfl
  | some expiresAt =>
      dsimp only
      split
      · rw [lookup_setMember, if_neg hclosed, lookup_setMember, if_neg hend]
      · rw [lookup_setMember, if_neg hend]

theorem lookup_withPoll
    (hkey : key ∉ ["type", "anyOf", "oneOf", "endTime", "closed", "votersCount"]) :
    (withPoll e db s note).lookup key = note.lookup key := by
  simp only [List.mem_cons, List.not_mem_nil, or_false, not_or] at hkey
  obtain ⟨htype, hany, hone, hend, hclosed, hvoters⟩ := hkey
  rw [withPoll]
  cases pollOf db s with
  | none => rfl
  | some poll =>
      have hoptions : key ≠ if poll.multiple then "anyOf" else "oneOf" := by
        split
        · exact hany
        · exact hone
      dsimp only
      rw [lookup_withVoters poll hvoters, lookup_withEnd poll hend hclosed, lookup_setMember,
        if_neg hoptions, lookup_setMember, if_neg htype]

def laterKeys : List String :=
  ["type", "anyOf", "oneOf", "endTime", "closed", "votersCount", "contentMap", "updated", "quote",
    "_misskey_quote", "quoteUri", "quoteAuthorization", "interactionPolicy"]

theorem lookup_note (hkey : key ∉ laterKeys) :
    (bundle e db author s).note.lookup key = (baseNote e db author s).lookup key := by
  simp only [laterKeys, List.mem_cons, List.not_mem_nil, or_false, not_or] at hkey
  rw [bundle, lookup_withPolicy (by simp [hkey]), lookup_withQuote (by simp [hkey]),
    lookup_withEdited (by simp [hkey]), lookup_withLanguage (by simp [hkey]),
    lookup_withPoll (by simp [hkey])]

/-! ### What the stages write -/

theorem lookup_type :
    (bundle e db author s).note.lookup "type" =
      some (str (if (pollOf db s).isSome then "Question" else "Note")) := by
  rw [bundle, lookup_withPolicy (by simp), lookup_withQuote (by simp),
    lookup_withEdited (by simp), lookup_withLanguage (by simp), withPoll]
  cases pollOf db s with
  | none => simp [baseNote, lookup_cons]
  | some poll =>
      have hoptions : "type" ≠ if poll.multiple then "anyOf" else "oneOf" := by
        split <;> simp
      dsimp only
      rw [lookup_withVoters poll (by simp), lookup_withEnd poll (by simp) (by simp),
        lookup_setMember, if_neg hoptions, lookup_setMember, if_pos rfl]
      rfl

theorem lookup_pollKey (hkey : key ∈ ["anyOf", "oneOf", "endTime"]) :
    (bundle e db author s).note.lookup key =
      (pollOf db s).bind fun poll =>
        (withEnd e poll (setMember (if poll.multiple then "anyOf" else "oneOf")
          (.array (pollOptions e db poll)) [])).lookup key := by
  have hne (other : String) (hother : other ∉ ["anyOf", "oneOf", "endTime"]) : key ≠ other :=
    fun heq => hother (heq ▸ hkey)
  have hbase : (baseNote e db author s).lookup key = none := by
    simp only [List.mem_cons, List.not_mem_nil, or_false] at hkey
    obtain rfl | rfl | rfl := hkey <;> simp [baseNote, lookup_cons]
  have hquote : key ∉ ["quote", "_misskey_quote", "quoteUri", "quoteAuthorization"] := by
    intro hin
    simp only [List.mem_cons, List.not_mem_nil, or_false] at hin
    obtain heq | heq | heq | heq := hin <;> exact hne _ (by simp) heq
  rw [bundle, lookup_withPolicy (hne _ (by simp)), lookup_withQuote hquote,
    lookup_withEdited (hne _ (by simp)), lookup_withLanguage (hne _ (by simp)), withPoll]
  cases pollOf db s with
  | none => exact hbase
  | some poll =>
      dsimp only [Option.bind_some]
      rw [lookup_withVoters poll (hne _ (by simp))]
      apply lookup_withEnd_congr
      apply lookup_setMember_congr
      rw [lookup_setMember, if_neg (hne _ (by simp)), hbase]
      rfl

theorem lookup_contentMap :
    (bundle e db author s).note.lookup "contentMap" =
      (s.language.filter (· ≠ "")).map fun language =>
        obj [(language, str (e.content s.id))] := by
  rw [bundle, lookup_withPolicy (by simp), lookup_withQuote (by simp),
    lookup_withEdited (by simp), withLanguage]
  cases s.language.filter (· ≠ "") with
  | none =>
      rw [lookup_withPoll (by simp)]
      simp [baseNote, lookup_cons]
  | some language => exact (lookup_setMember ..).trans (if_pos rfl)

theorem lookup_interactionPolicy :
    (bundle e db author s).note.lookup "interactionPolicy" =
      some (obj [("canQuote", obj [("automaticApproval",
        strings (approved s.quoteApprovalPolicy (followersUrl e.domain author)
          (followingUrl e.domain author) (author.uriAt e.domain)))])]) := by
  rw [bundle, withPolicy, lookup_setMember, if_pos rfl]

theorem lookup_quoteKey (hkey : key ∈ ["quote", "_misskey_quote", "quoteUri"]) :
    (bundle e db author s).note.lookup key =
      (quoteOf db s).bind fun quote =>
        (withQuoted ((quotedOf db quote).bind storedUri) []).lookup key := by
  have hne (other : String) (hother : other ∉ ["quote", "_misskey_quote", "quoteUri"]) :
      key ≠ other := fun heq => hother (heq ▸ hkey)
  have hpoll : key ∉ ["type", "anyOf", "oneOf", "endTime", "closed", "votersCount"] := by
    intro hin
    simp only [List.mem_cons, List.not_mem_nil, or_false] at hin
    obtain heq | heq | heq | heq | heq | heq := hin <;> exact hne _ (by simp) heq
  have hbefore : (withEdited e s (withLanguage e s (withPoll e db s
      (baseNote e db author s)))).lookup key = none := by
    rw [lookup_withEdited (hne _ (by simp)), lookup_withLanguage (hne _ (by simp)),
      lookup_withPoll hpoll]
    simp only [List.mem_cons, List.not_mem_nil, or_false] at hkey
    obtain rfl | rfl | rfl := hkey <;> simp [baseNote, lookup_cons]
  rw [bundle, lookup_withPolicy (hne _ (by simp)), withQuote]
  cases quoteOf db s with
  | none => exact hbefore
  | some quote =>
      dsimp only [Option.bind_some]
      rw [lookup_withStamp _ (hne _ (by simp))]
      exact lookup_withQuoted_congr _ hbefore

theorem lookup_anyOf :
    (bundle e db author s).note.lookup "anyOf" =
      (pollOf db s).bind fun poll =>
        if poll.multiple then some (.array (pollOptions e db poll)) else none := by
  rw [lookup_pollKey (by simp)]
  congr 1
  funext poll
  rw [lookup_withEnd poll (by simp) (by simp), lookup_setMember]
  cases poll.multiple <;> simp

theorem lookup_oneOf :
    (bundle e db author s).note.lookup "oneOf" =
      (pollOf db s).bind fun poll =>
        if poll.multiple then none else some (.array (pollOptions e db poll)) := by
  rw [lookup_pollKey (by simp)]
  congr 1
  funext poll
  rw [lookup_withEnd poll (by simp) (by simp), lookup_setMember]
  cases poll.multiple <;> simp

theorem lookup_endTime :
    (bundle e db author s).note.lookup "endTime" =
      (pollOf db s).bind fun poll => poll.expiresAt.map fun t => str (e.iso8601 t) := by
  rw [lookup_pollKey (by simp)]
  congr 1
  funext poll
  have hoptions : "endTime" ≠ if poll.multiple then "anyOf" else "oneOf" := by
    split <;> simp
  rw [withEnd]
  cases poll.expiresAt with
  | none => exact (lookup_setMember ..).trans (if_neg hoptions)
  | some expiresAt =>
      dsimp only [Option.map_some]
      split
      · rw [lookup_setMember, if_neg (by simp), lookup_setMember, if_pos rfl]
      · rw [lookup_setMember, if_pos rfl]

/-! ### What is read of it -/

theorem asStringVec_strings (ss : List String) :
    NoteReading.asStringVec (some (strings ss)) = ss := by
  rw [strings, NoteReading.asStringVec]
  induction ss with
  | nil => rfl
  | cons s ss ih => rw [List.map_cons, List.filterMap_cons_some (asString_str s), ih]

/-- The note as the other server has it. -/
def object (e : Env) (db : Db) (author : Account) (s : Status) : Json :=
  obj (bundle e db author s).note

theorem member_object :
    member key (object e db author s) = (bundle e db author s).note.lookup key :=
  member_obj key _

theorem member_base (hkey : key ∉ laterKeys) :
    member key (object e db author s) = (baseNote e db author s).lookup key :=
  member_object.trans (lookup_note hkey)

theorem typeMatches_object (types : List String) :
    NoteReading.typeMatches (object e db author s) types =
      types.contains (if (pollOf db s).isSome then "Question" else "Note") := by
  rw [NoteReading.typeMatches, member_object, lookup_type, str]
  simp only [String.ofList_toList]

theorem isStatusType_object : NoteReading.isStatusType (object e db author s) = true := by
  rw [NoteReading.isStatusType, typeMatches_object]
  cases (pollOf db s).isSome <;> simp [NoteReading.supportedTypes]

theorem isConverted_object : NoteReading.isConverted (object e db author s) = false := by
  rw [NoteReading.isConverted, typeMatches_object]
  cases (pollOf db s).isSome <;> simp [NoteReading.convertedTypes]

theorem id_object :
    (member "id" (object e db author s)).bind asString = some (noteUri e.domain author s) := by
  rw [member_base (by simp [laterKeys])]
  simp [baseNote]

theorem attributed_object :
    NoteReading.attributed (object e db author s) = [author.uriAt e.domain] := by
  rw [NoteReading.attributed, member_base (by simp [laterKeys])]
  simp [baseNote, lookup_cons, str]

theorem visibility_object :
    NoteReading.visibility (object e db author s) =
      Addressing.fromAudience (audience e.domain db author s).1
        (audience e.domain db author s).2 := by
  rw [NoteReading.visibility, member_base (by simp [laterKeys]), member_base (by simp [laterKeys])]
  simp [baseNote, lookup_cons, asStringVec_strings]

theorem name_object : member "name" (object e db author s) = none := by
  rw [member_base (by simp [laterKeys])]
  simp [baseNote, lookup_cons]

theorem asString_strOrNull (v : Option String) : asString (strOrNull v) = v := by
  cases v with
  | none => rfl
  | some s => exact asString_str s

theorem inReplyTo_object :
    (member "inReplyTo" (object e db author s)).bind asString = inReplyTo db s := by
  rw [member_base (by simp [laterKeys])]
  simp [baseNote, lookup_cons, asString_strOrNull]

theorem spoilerText_object :
    NoteReading.processedSpoilerText (object e db author s) =
      if NoteReading.blank s.spoilerText then "" else s.spoilerText := by
  have hsummary : (member "summary" (object e db author s)).bind asString =
      if s.spoilerText = "" then none else some s.spoilerText := by
    rw [member_base (by simp [laterKeys])]
    simp [baseNote, lookup_cons, asString_strOrNull]
  have hmap : member "summaryMap" (object e db author s) = none := by
    rw [member_base (by simp [laterKeys])]
    simp [baseNote, lookup_cons]
  rw [NoteReading.processedSpoilerText, isConverted_object, NoteReading.spoilerText,
    NoteReading.presentStr, hsummary, NoteReading.firstOfMap, hmap]
  by_cases hempty : s.spoilerText = ""
  · simp [hempty]
  · cases hblank : NoteReading.blank s.spoilerText <;>
      simp [hempty, hblank, Option.filter_some]

theorem language_object :
    NoteReading.language (object e db author s) =
      (s.language.filter fun l => !NoteReading.blank l).map NoteReading.normalizedLocaleName := by
  have hnone (key : String) (hkey : key = "nameMap" ∨ key = "summaryMap") :
      NoteReading.firstKey (object e db author s) key = none := by
    have hmember : member key (object e db author s) = none := by
      obtain rfl | rfl := hkey
      · rw [member_base (by simp [laterKeys])]
        simp [baseNote, lookup_cons]
      · rw [member_base (by simp [laterKeys])]
        simp [baseNote, lookup_cons]
    rw [NoteReading.firstKey, hmember]
  have hfirst : NoteReading.firstKey (object e db author s) "contentMap" =
      s.language.filter (· ≠ "") := by
    rw [NoteReading.firstKey, member_object, lookup_contentMap]
    cases s.language.filter (· ≠ "") with
    | none => rfl
    | some l => simp [obj]
  rw [NoteReading.language, hfirst, hnone _ (.inl rfl), hnone _ (.inr rfl)]
  cases s.language with
  | none => rfl
  | some l =>
      by_cases hempty : l = ""
      · simp [hempty, NoteReading.blank, Option.filter_some]
      · simp [hempty, Option.filter_some]

/-! ### The quote -/

theorem legacyKey_object : member "quoteUrl" (object e db author s) = none := by
  rw [member_base (by simp [laterKeys])]
  simp [baseNote]

theorem quoteKey_object (hkey : key ∈ ["quote", "_misskey_quote", "quoteUri"])
    {quote : Quote} (hquote : quoteOf db s = some quote) :
    member key (object e db author s) =
      match (quotedOf db quote).bind storedUri with
      | some uri => some (str uri)
      | none => if key = "quote" then some (obj [("type", str "Tombstone")]) else none := by
  rw [member_object, lookup_quoteKey hkey, hquote, Option.bind_some]
  simp only [List.mem_cons, List.not_mem_nil, or_false] at hkey
  cases (quotedOf db quote).bind storedUri with
  | none =>
      rw [withQuoted, lookup_setMember]
      rfl
  | some uri =>
      rw [withQuoted, lookup_setMember, lookup_setMember, lookup_setMember]
      obtain rfl | rfl | rfl := hkey <;> simp

theorem parseQuote_none (hquote : quoteOf db s = none) :
    NoteReading.parseQuote (object e db author s) = none := by
  have hkey (key : String) (hkey : key ∈ ["quote", "_misskey_quote", "quoteUri"]) :
      member key (object e db author s) = none := by
    rw [member_object, lookup_quoteKey hkey, hquote]
    rfl
  rw [NoteReading.parseQuote, if_neg]
  simp [NoteReading.quoteKeys, hkey, legacyKey_object, NoteReading.present]

theorem parseQuote_some {quote : Quote} (hquote : quoteOf db s = some quote)
    (hblank : ∀ u, (quotedOf db quote).bind storedUri = some u → NoteReading.blank u = false) :
    ∃ fields, NoteReading.parseQuote (object e db author s) = some fields ∧
      fields.uri = (quotedOf db quote).bind storedUri := by
  have hkey (key : String) (hin : key ∈ ["quote", "_misskey_quote", "quoteUri"]) :
      member key (object e db author s) =
        match (quotedOf db quote).bind storedUri with
        | some uri => some (str uri)
        | none => if key = "quote" then some (obj [("type", str "Tombstone")]) else none :=
    quoteKey_object hin hquote
  rw [NoteReading.parseQuote, if_pos]
  · refine ⟨_, rfl, ?_⟩
    simp only [NoteReading.quoteKeys, List.findSome?_cons, List.findSome?_nil, legacyKey_object,
      hkey "quote" (by simp), hkey "_misskey_quote" (by simp), hkey "quoteUri" (by simp)]
    cases (quotedOf db quote).bind storedUri with
    | none =>
        simp [NoteReading.first, NoteReading.valueOrId, obj, member, Value.get]
        rfl
    | some uri => simp [NoteReading.first, NoteReading.valueOrId, str]
  · rw [List.any_eq_true]
    refine ⟨"quote", by simp [NoteReading.quoteKeys], ?_⟩
    rw [hkey "quote" (by simp)]
    cases hu : (quotedOf db quote).bind storedUri with
    | none => rfl
    | some uri => simp [NoteReading.present, str, hblank uri hu]

theorem parseQuote_blank {quote : Quote} (hquote : quoteOf db s = some quote) {uri : String}
    (huri : (quotedOf db quote).bind storedUri = some uri)
    (hblank : NoteReading.blank uri = true) :
    NoteReading.parseQuote (object e db author s) = none := by
  have hkey (key : String) (hkey : key ∈ ["quote", "_misskey_quote", "quoteUri"]) :
      member key (object e db author s) = some (str uri) := by
    rw [quoteKey_object hkey hquote, huri]
  rw [NoteReading.parseQuote, if_neg]
  simp [NoteReading.quoteKeys, hkey, legacyKey_object, NoteReading.present, str, hblank]

/-! ### The poll -/

theorem tallies_length (poll : Poll) : (tallies db poll).length = poll.options.length := by
  simp [tallies]

theorem tallies_lt (poll : Poll) {n : ℤ} (hn : n ∈ tallies db poll) :
    -2 ^ 63 ≤ n ∧ n < 2 ^ 63 := by
  obtain ⟨i, -, rfl⟩ := List.mem_map.mp hn
  have hcount := List.countP_le_length
    (p := fun v => decide (v.pollId = poll.id ∧ v.choice = (i : ℤ))) (l := db.votes)
  have hvotes := db.votes_lt
  omega

theorem options_read (poll : Poll) :
    ((pollOptions e db poll).filterMap fun item => (member "name" item).bind asString) =
      poll.options := by
  have hname (o : String × ℤ) :
      (member "name" (pollOption (showTotals e poll) o)).bind asString = some o.1 := by
    rw [pollOption, member_obj]
    simp [lookup_cons]
  rw [pollOptions, List.filterMap_map]
  have hsome : (fun item => (member "name" item).bind asString) ∘
      pollOption (showTotals e poll) = fun o : String × ℤ => some o.1 := funext hname
  rw [hsome, List.filterMap_eq_map', List.map_fst_zip]
  rw [tallies_length]

theorem tallies_read (poll : Poll) :
    ((pollOptions e db poll).map fun item =>
      (((member "replies" item).bind (member "totalItems")).bind NoteReading.asI64).getD 0) =
      if showTotals e poll then tallies db poll
      else (tallies db poll).map fun _ => 0 := by
  have htotal (o : String × ℤ) (ho : o ∈ poll.options.zip (tallies db poll)) :
      (((member "replies" (pollOption (showTotals e poll) o)).bind (member "totalItems")).bind
        NoteReading.asI64).getD 0 = if showTotals e poll then o.2 else 0 := by
    have hread : NoteReading.asI64 (.number o.2) = some o.2 :=
      if_pos (tallies_lt poll (List.of_mem_zip ho).2)
    rw [pollOption, member_obj]
    simp only [lookup_cons, List.lookup_nil]
    cases showTotals e poll with
    | false => simp [member_obj, lookup_cons, NoteReading.asI64]
    | true => simp [member_obj, lookup_cons, hread]
  rw [pollOptions, List.map_map, List.map_congr_left (g := fun o => if showTotals e poll then o.2
    else 0) htotal]
  cases showTotals e poll with
  | false =>
      rw [if_neg (by simp)]
      simp only [Bool.false_eq_true, if_false]
      rw [List.map_const', List.map_const', List.length_zip, tallies_length, min_self]
  | true =>
      simp only [if_true]
      exact List.map_snd_zip (tallies_length poll).le

end

/-! ### Whom the policy names -/

theorem take_snd {candidates actors : List String} :
    (NoteReading.take candidates actors).2 = true ↔
      ∃ a ∈ actors, a ∈ candidates ∧ a ≠ "" := by
  rw [NoteReading.take, decide_eq_true_iff, Ne, List.length_filter_eq_length_iff]
  simp

theorem mem_take {candidates actors : List String} {a : String} :
    a ∈ (NoteReading.take candidates actors).1 ↔ a ∈ actors ∧ (a ∉ candidates ∨ a = "") := by
  simp [NoteReading.take]

theorem mem_sortDedup {ss : List String} {a : String} :
    a ∈ NoteReading.sortDedup ss ↔ a ∈ ss := by
  rw [NoteReading.sortDedup, List.mem_dedup, List.mem_mergeSort]

/-- An author, the author's collections and everyone are told apart. -/
structure Apart (followers following actor : String) : Prop where
  followers_public : followers ∉ NoteReading.publicActors
  following_public : following ∉ NoteReading.publicActors
  actor_public : actor ∉ NoteReading.publicActors
  collections : followers ≠ following
  actor_followers : actor ≠ followers
  actor_following : actor ≠ following
  followers_ne : followers ≠ ""
  following_ne : following ≠ ""
  actor_ne : actor ≠ ""

section
variable {followers following actor : String}

theorem public_mem : Addressing.activityStreamsPublic ∈ NoteReading.publicActors := by
  simp [NoteReading.publicActors]

theorem public_ne : Addressing.activityStreamsPublic ≠ "" := by
  simp [Addressing.activityStreamsPublic]

theorem sub_of_named (h : Apart followers following actor) {v : Option Json}
    (hnamed : ∀ a ∈ NoteReading.policyActors v,
      a ∈ [Addressing.activityStreamsPublic, followers, following, actor]) :
    NoteReading.sub followers following actor v =
      (if Addressing.activityStreamsPublic ∈ NoteReading.policyActors v then Quotes.publicPolicy
        else 0) |||
      (if followers ∈ NoteReading.policyActors v then Quotes.followersPolicy else 0) |||
      (if following ∈ NoteReading.policyActors v then Quotes.followingPolicy else 0) := by
  have hnonempty (a : String) (ha : a ∈ NoteReading.policyActors v) : a ≠ "" := by
    have hin := hnamed a ha
    simp only [List.mem_cons, List.not_mem_nil, or_false] at hin
    obtain rfl | rfl | rfl | rfl := hin
    · exact public_ne
    · exact h.followers_ne
    · exact h.following_ne
    · exact h.actor_ne
  have hpublic (a : String) (ha : a ∈ NoteReading.policyActors v) :
      a ∈ NoteReading.publicActors ↔ a = Addressing.activityStreamsPublic := by
    have hin := hnamed a ha
    simp only [List.mem_cons, List.not_mem_nil, or_false] at hin
    constructor
    · intro hpub
      obtain rfl | rfl | rfl | rfl := hin
      · rfl
      · exact absurd hpub h.followers_public
      · exact absurd hpub h.following_public
      · exact absurd hpub h.actor_public
    · intro heq
      exact heq ▸ public_mem
  rw [NoteReading.sub]
  generalize hone : NoteReading.take NoteReading.publicActors
    (NoteReading.sortDedup (NoteReading.policyActors v)) = anyone
  have hanyone (a : String) : a ∈ anyone.1 ↔
      a ∈ NoteReading.policyActors v ∧ a ≠ Addressing.activityStreamsPublic := by
    rw [← hone, mem_take, mem_sortDedup]
    constructor
    · rintro ⟨ha, hout⟩
      exact ⟨ha, fun heq => hout.elim (fun hn => hn ((hpublic a ha).mpr heq)) (hnonempty a ha)⟩
    · rintro ⟨ha, hne⟩
      exact ⟨ha, .inl fun hin => hne ((hpublic a ha).mp hin)⟩
  have hanyone' : anyone.2 = true ↔
      Addressing.activityStreamsPublic ∈ NoteReading.policyActors v := by
    rw [← hone, take_snd]
    constructor
    · rintro ⟨a, ha, hin, -⟩
      rw [mem_sortDedup] at ha
      exact (hpublic a ha).mp hin ▸ ha
    · intro ha
      exact ⟨_, mem_sortDedup.mpr ha, public_mem, public_ne⟩
  rw [if_neg h.followers_ne, if_neg h.following_ne]
  generalize htwo : NoteReading.take [followers] anyone.1 = followed
  have hfollowed (a : String) : a ∈ followed.1 ↔ a ∈ anyone.1 ∧ a ≠ followers := by
    rw [← htwo, mem_take, List.mem_singleton]
    refine and_congr_right fun ha => or_iff_left ?_
    exact hnonempty a ((hanyone a).mp ha).1
  have hne : followers ≠ Addressing.activityStreamsPublic := fun heq =>
    h.followers_public (heq ▸ public_mem)
  have hne' : following ≠ Addressing.activityStreamsPublic := fun heq =>
    h.following_public (heq ▸ public_mem)
  have hfollowed' : followed.2 = true ↔ followers ∈ NoteReading.policyActors v := by
    rw [← htwo, take_snd]
    simp [hanyone, hne, h.followers_ne]
  generalize hthree : NoteReading.take [following] followed.1 = follows
  have hfollows (a : String) : a ∈ follows.1 ↔ a ∈ followed.1 ∧ a ≠ following := by
    rw [← hthree, mem_take, List.mem_singleton]
    refine and_congr_right fun ha => or_iff_left ?_
    exact hnonempty a ((hanyone a).mp ((hfollowed a).mp ha).1).1
  have hfollows' : follows.2 = true ↔ following ∈ NoteReading.policyActors v := by
    rw [← hthree, take_snd]
    simp [hfollowed, hanyone, hne', h.collections.symm, h.following_ne]
  have hothers : (NoteReading.take [actor] follows.1).1 = [] := by
    rw [List.eq_nil_iff_forall_not_mem]
    intro a ha
    rw [mem_take, List.mem_singleton, hfollows, hfollowed, hanyone] at ha
    obtain ⟨⟨⟨⟨ha, hpub⟩, hfollowers⟩, hfollowing⟩, hactor⟩ := ha
    have hin := hnamed a ha
    simp only [List.mem_cons, List.not_mem_nil, or_false, hpub, hfollowers, hfollowing,
      false_or] at hin
    exact hactor.elim (fun hn => hn hin) (hnonempty a ha)
  rw [if_pos hothers]
  simp only [hanyone', hfollowed', hfollows']
  exact BitVec.or_zero

/-- The flags that are told to other servers. -/
def advertised : BitVec 32 :=
  Quotes.publicPolicy ||| Quotes.followersPolicy ||| Quotes.followingPolicy

theorem flag_eq (x : BitVec 32) (i : ℕ) :
    (if x &&& BitVec.twoPow 32 i ≠ 0 then BitVec.twoPow 32 i else 0) =
      x &&& BitVec.twoPow 32 i := by
  rw [BitVec.and_twoPow]
  cases x.getLsbD i with
  | false => simp
  | true =>
      rw [if_pos rfl]
      split
      · rfl
      next h => exact (not_not.mp h).symm

theorem flags_eq (x : BitVec 32) :
    (if x &&& Quotes.publicPolicy ≠ 0 then Quotes.publicPolicy else 0) |||
      (if x &&& Quotes.followersPolicy ≠ 0 then Quotes.followersPolicy else 0) |||
      (if x &&& Quotes.followingPolicy ≠ 0 then Quotes.followingPolicy else 0) =
    x &&& advertised := by
  have hpublic := flag_eq x 1
  have hfollowers := flag_eq x 2
  have hfollowing := flag_eq x 3
  have hone : BitVec.twoPow 32 1 = Quotes.publicPolicy := by decide
  have htwo : BitVec.twoPow 32 2 = Quotes.followersPolicy := by decide
  have hthree : BitVec.twoPow 32 3 = Quotes.followingPolicy := by decide
  rw [hone] at hpublic
  rw [htwo] at hfollowers
  rw [hthree] at hfollowing
  rw [hpublic, hfollowers, hfollowing, advertised, BitVec.and_or_distrib_left,
    BitVec.and_or_distrib_left]

theorem automatic_shiftLeft (x : BitVec 32) :
    automatic ((x &&& advertised) <<< 16 ||| 0) = x &&& advertised := by
  rw [← flags_eq]
  split_ifs <;> decide

theorem mem_approved (h : Apart followers following actor) (policy : BitVec 32) :
    (Addressing.activityStreamsPublic ∈ approved policy followers following actor ↔
        automatic policy &&& Quotes.publicPolicy ≠ 0) ∧
      (followers ∈ approved policy followers following actor ↔
        automatic policy &&& Quotes.followersPolicy ≠ 0) ∧
      (following ∈ approved policy followers following actor ↔
        automatic policy &&& Quotes.followingPolicy ≠ 0) ∧
      ∀ a ∈ approved policy followers following actor,
        a ∈ [Addressing.activityStreamsPublic, followers, following, actor] := by
  have hfollowers : followers ≠ Addressing.activityStreamsPublic := fun heq =>
    h.followers_public (heq ▸ public_mem)
  have hfollowing : following ≠ Addressing.activityStreamsPublic := fun heq =>
    h.following_public (heq ▸ public_mem)
  have hactor : actor ≠ Addressing.activityStreamsPublic := fun heq =>
    h.actor_public (heq ▸ public_mem)
  rw [approved]
  by_cases hp : automatic policy &&& Quotes.publicPolicy = 0#32 <;>
    by_cases hf : automatic policy &&& Quotes.followersPolicy = 0#32 <;>
    by_cases hg : automatic policy &&& Quotes.followingPolicy = 0#32 <;>
    simp [hp, hf, hg, hfollowers, hfollowing, hfollowers.symm, hfollowing.symm, hactor.symm,
      h.collections, h.collections.symm, h.actor_followers.symm, h.actor_following.symm]

theorem policyActors_strings (ss : List String) :
    NoteReading.policyActors (some (strings ss)) = ss := by
  rw [strings, NoteReading.policyActors]
  induction ss with
  | nil => rfl
  | cons s ss ih =>
      have hs : NoteReading.valueOrId (str s) = some s := by
        simp [NoteReading.valueOrId, str]
      rw [List.map_cons, List.filterMap_cons_some hs, ih]

theorem automatic_quotePolicy {e : Env} {db : Db} {author : Account} {s : Status}
    (h : Apart (followersUrl e.domain author) (followingUrl e.domain author)
      (author.uriAt e.domain)) :
    automatic (NoteReading.quotePolicy (object e db author s) (followersUrl e.domain author)
      (followingUrl e.domain author) (author.uriAt e.domain)) =
      automatic s.quoteApprovalPolicy &&& advertised := by
  have hpolicy : (member "interactionPolicy" (object e db author s)).bind (member "canQuote") =
      some (obj [("automaticApproval", strings (approved s.quoteApprovalPolicy
        (followersUrl e.domain author) (followingUrl e.domain author)
        (author.uriAt e.domain)))]) := by
    rw [member_object, lookup_interactionPolicy, Option.bind_some, member_obj, lookup_cons,
      if_pos rfl]
  obtain ⟨hpublic, hfollowers, hfollowing, hnamed⟩ := mem_approved h s.quoteApprovalPolicy
  have hmanual : NoteReading.sub (followersUrl e.domain author) (followingUrl e.domain author)
      (author.uriAt e.domain) none = 0 := by
    rw [sub_of_named h (v := none) (by simp [NoteReading.policyActors])]
    simp [NoteReading.policyActors]
  have hauto : NoteReading.sub (followersUrl e.domain author) (followingUrl e.domain author)
      (author.uriAt e.domain) (some (strings (approved s.quoteApprovalPolicy
        (followersUrl e.domain author) (followingUrl e.domain author)
        (author.uriAt e.domain)))) = automatic s.quoteApprovalPolicy &&& advertised := by
    rw [sub_of_named h (by rwa [policyActors_strings]), policyActors_strings, ← flags_eq]
    simp only [hpublic, hfollowers, hfollowing]
  have hread : NoteReading.quotePolicy (object e db author s) (followersUrl e.domain author)
      (followingUrl e.domain author) (author.uriAt e.domain) =
      (automatic s.quoteApprovalPolicy &&& advertised) <<< 16 ||| 0 := by
    rw [NoteReading.quotePolicy, hpolicy, ← hauto, ← hmanual]
    change NoteReading.sub _ _ _ (member "automaticApproval" (obj _)) <<< 16 |||
      NoteReading.sub _ _ _ (member "manualApproval" (obj _)) = _
    rw [member_obj, member_obj, lookup_cons, if_pos rfl, lookup_cons, if_neg (by simp),
      List.lookup_nil]
  rw [hread, automatic_shiftLeft]

end

end Eunha.NoteMembers
