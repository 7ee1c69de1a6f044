import Eunha.Grammars
import Eunha.SearchQuery

/-!
# The grammar of search queries

The expression grammar that the comments of the parser give, and that the parser reads the
same: each part, from any position, yields what its grammar derives from the rest of the
query, and fails where that fails.
-/
namespace Eunha.SearchQuery
open Grammars
open Sanitizer (isWhitespace)

/-! ### The grammar -/

def char (c : Char) : Grammar Char Unit := .one (· = c) fun _ => ()

def term : Grammar Char Text := many1 isTermChar

def space : Grammar Char Unit := .map (fun _ => ()) (many1 isWhitespace)

/-- `prefix` -/
def field : Grammar Char Text := .seq (fun term _ => term) term (char ':')

def shortcode : Grammar Char Text :=
  .seq (fun _ term => term) (char ':')
    (.seq (fun term _ => term) term (.maybe (fun _ => ()) (char ':')))

def word : Grammar Char Text :=
  .seq (fun word _ => word) (many1 isWordChar) (.maybe (fun _ => ()) space)

def phrase : Grammar Char (List Text) :=
  .seq (fun _ words => words) (char '"')
    (.seq (fun words _ => words) (.many id word) (char '"'))

def operator : Grammar Char Char := .one (fun c => c = '+' ∨ c = '-') id

/-- `phrase | term | shortcode` -/
def body : Grammar Char Body :=
  .choice (.map .phrase phrase) (.choice (.map .term term) (.map (fun _ => .shortcode) shortcode))

def fullClause : Grammar Char Parsed :=
  .seq (fun operator rest => .clause operator rest.1 rest.2) (.maybe id operator)
    (.seq Prod.mk (.maybe id field) body)

def clause : Grammar Char Parsed :=
  .choice fullClause
    (.choice (.map (fun t => .clause none none (.term t)) field)
      (.map (fun _ => .junk) (char '"')))

/-- `(clause >> space.maybe).repeat` -/
def query : Grammar Char (List Parsed) :=
  .many id (.seq (fun clause _ => clause) clause (.maybe (fun _ => ()) space))

/-! ### The parts read by their grammars -/

variable (input : Text)

theorem charAt_reads (c : Char) :
    Reads input (char c) fun i => (charAt input i c).map fun stop => ((), stop) := by
  apply (Reads.one (fun d => decide (d = c)) fun _ => ()).congr
  intro i
  unfold charAt
  cases input[i]? with
  | none => rfl
  | some d =>
      by_cases hd : d = c
      · simp [hd]
      · simp [hd]

theorem many1_reads (p : Char → Bool) :
    Reads input (many1 p) fun i =>
      if i < scan p input i then some (slice input i (scan p input i), scan p input i)
      else none := by
  intro i
  have hlen : scan p input i - i = ((input.drop i).takeWhile p).length := by
    rw [scan_eq]
    omega
  by_cases h : i < scan p input i
  · have htake : slice input i (scan p input i) = (input.drop i).takeWhile p := by
      rw [slice, hlen]
      exact (List.prefix_iff_eq_take.mp (List.takeWhile_prefix p)).symm
    have hdrop : input.drop (scan p input i) = (input.drop i).dropWhile p := by
      have hleft : (((input.drop i).takeWhile p) ++ ((input.drop i).dropWhile p)).drop
          ((input.drop i).takeWhile p).length = (input.drop i).dropWhile p := List.drop_left
      rw [List.takeWhile_append_dropWhile] at hleft
      rw [scan_eq, ← List.drop_drop, hleft]
    dsimp only
    rw [if_pos h, Option.map_some, htake, hdrop]
    apply Derives.many1
    intro hnil
    rw [hnil] at hlen
    simp at hlen
    omega
  · dsimp only
    rw [if_neg h]
    apply Derives.many1_fails
    apply List.eq_nil_of_length_eq_zero
    omega

theorem termAt_reads : Reads input term (termAt input) := many1_reads input isTermChar

theorem spaceAt_reads :
    Reads input space fun i => (spaceAt input i).map fun stop => ((), stop) := by
  apply ((many1_reads input isWhitespace).map fun _ => ()).congr
  intro i
  unfold spaceAt
  dsimp only
  split
  next => rfl
  next => rfl

theorem prefixAt_reads : Reads input field (prefixAt input) := by
  apply ((termAt_reads input).seq (charAt_reads input ':') fun term _ => term).congr
  intro i
  unfold prefixAt
  cases termAt input i with
  | none => rfl
  | some r =>
      cases h : charAt input r.2 ':' with
      | none => simp [h]
      | some stop => simp [h]

theorem shortcodeAt_reads : Reads input shortcode (shortcodeAt input) := by
  apply ((charAt_reads input ':').seq ((termAt_reads input).seq
    ((charAt_reads input ':').maybe fun _ => ()) fun term _ => term) fun _ term => term).congr
  intro i
  unfold shortcodeAt
  cases charAt input i ':' with
  | none => rfl
  | some j =>
      cases h : termAt input j with
      | none => simp [h]
      | some r =>
          cases hc : charAt input r.2 ':' with
          | none => simp [h, hc]
          | some stop => simp [h, hc]

theorem skipSpace_reads :
    Reads input (.maybe (fun _ => ()) space) fun i => some ((), skipSpace input i) := by
  apply ((spaceAt_reads input).maybe fun _ => ()).congr
  intro i
  unfold skipSpace
  cases spaceAt input i with
  | none => rfl
  | some stop => rfl

theorem word_reads :
    Reads input word fun i =>
      if i < scan isWordChar input i then
        some (slice input i (scan isWordChar input i), skipSpace input (scan isWordChar input i))
      else none := by
  apply ((many1_reads input isWordChar).seq (skipSpace_reads input) fun word _ => word).congr
  intro i
  split
  next => rfl
  next => rfl

theorem phraseWords_reads (f : List Text → A) (i : ℕ) :
    Derives (.many f word) (input.drop i)
      (some (f (phraseWords input i).1, input.drop (phraseWords input i).2)) := by
  have hword := word_reads input
  have hle := le_scan isWordChar input
  induction i using phraseWords.induct input generalizing f with
  | case1 i stop hstop =>
      have hi := hword i
      dsimp only at hi
      rw [if_neg (by omega)] at hi
      rw [phraseWords, if_pos hstop]
      exact .stop hi
  | case2 i stop hstop ih =>
      have hi := hword i
      have hlt := hle i
      dsimp only at hi
      rw [if_pos (by omega)] at hi
      rw [phraseWords, if_neg hstop]
      exact .step hi (ih fun words => f (slice input i stop :: words))

theorem phraseAt_reads : Reads input phrase (phraseAt input) := by
  have hwords : Reads input (.many id word) fun i => some (phraseWords input i) :=
    phraseWords_reads input id
  apply ((charAt_reads input '"').seq (hwords.seq (charAt_reads input '"') fun words _ => words)
    fun _ words => words).congr
  intro i
  unfold phraseAt
  cases charAt input i '"' with
  | none => rfl
  | some j =>
      cases h : charAt input (phraseWords input j).2 '"' with
      | none => simp [h]
      | some stop => simp [h]

theorem bodyAt_reads : Reads input body (bodyAt input) := by
  apply (((phraseAt_reads input).map Body.phrase).choice (((termAt_reads input).map
    Body.term).choice ((shortcodeAt_reads input).map fun _ => Body.shortcode))).congr
  intro i
  unfold bodyAt
  cases phraseAt input i with
  | some r => rfl
  | none =>
      cases termAt input i with
      | some r => rfl
      | none => rfl

theorem operatorAt_reads :
    Reads input (.maybe id operator) fun i => some (operatorAt input i) := by
  apply ((Reads.one (fun c => decide (c = '+' ∨ c = '-')) id).maybe id).congr
  intro i
  unfold operatorAt
  cases input[i]? with
  | none => rfl
  | some c =>
      by_cases hc : c = '+' ∨ c = '-'
      · simp [hc]
      · simp [hc]

theorem fullClauseAt_reads : Reads input fullClause (fullClauseAt input) := by
  apply ((operatorAt_reads input).seq (((prefixAt_reads input).maybe id).seq
    (bodyAt_reads input) Prod.mk) fun operator rest =>
      Parsed.clause operator rest.1 rest.2).congr
  intro i
  unfold fullClauseAt
  cases h : prefixAt input (operatorAt input i).2 with
  | none => simp [h, Function.comp_def]
  | some r => simp [h, Function.comp_def]

theorem clauseAt_reads : Reads input clause (clauseAt input) := by
  apply ((fullClauseAt_reads input).choice (((prefixAt_reads input).map fun t =>
    Parsed.clause none none (.term t)).choice ((charAt_reads input '"').map
      fun _ => Parsed.junk))).congr
  intro i
  unfold clauseAt
  cases fullClauseAt input i with
  | some r => rfl
  | none =>
      cases prefixAt input i with
      | some r => rfl
      | none =>
          rw [Option.map_map]
          rfl

/-! ### Progress -/

variable {input}

theorem charAt_eq {i stop : ℕ} {c : Char} (h : charAt input i c = some stop) :
    i < stop ∧ stop ≤ input.length := by
  unfold charAt at h
  split at h
  next hget =>
    obtain ⟨hi, -⟩ := List.getElem?_eq_some_iff.mp hget
    cases h
    omega
  next => cases h

theorem termAt_lt {i stop : ℕ} {t : Text} (h : termAt input i = some (t, stop)) :
    i < stop ∧ stop ≤ input.length := by
  unfold termAt at h
  dsimp only at h
  split at h
  next hlt =>
    cases h
    exact ⟨hlt, scan_le (lt_length_of_scan hlt).le⟩
  next => cases h

theorem prefixAt_lt {i stop : ℕ} {t : Text} (h : prefixAt input i = some (t, stop)) :
    i < stop ∧ stop ≤ input.length := by
  unfold prefixAt at h
  obtain ⟨⟨t', j⟩, hterm, h⟩ := Option.bind_eq_some_iff.mp h
  obtain ⟨stop', hcolon, h⟩ := Option.bind_eq_some_iff.mp h
  cases h
  have hj := termAt_lt hterm
  have hstop := charAt_eq hcolon
  omega

theorem shortcodeAt_lt {i stop : ℕ} {t : Text} (h : shortcodeAt input i = some (t, stop)) :
    i < stop ∧ stop ≤ input.length := by
  unfold shortcodeAt at h
  obtain ⟨j, hcolon, h⟩ := Option.bind_eq_some_iff.mp h
  obtain ⟨⟨t', k⟩, hterm, h⟩ := Option.bind_eq_some_iff.mp h
  have hj := charAt_eq hcolon
  have hk := termAt_lt hterm
  dsimp only at h
  cases hc : charAt input k ':' with
  | none =>
      rw [hc] at h
      cases h
      exact ⟨by rw [Option.getD_none]; omega, hk.2⟩
  | some last =>
      have hlast := charAt_eq hc
      rw [hc] at h
      cases h
      exact ⟨by rw [Option.getD_some]; omega, hlast.2⟩

theorem phraseWords_le (i : ℕ) : i ≤ (phraseWords input i).2 := by
  induction i using phraseWords.induct input with
  | case1 i stop hstop => rw [phraseWords, if_pos hstop]
  | case2 i stop hstop ih =>
      have hstart := le_scan isWordChar input i
      have hskip := le_scan isWhitespace input stop
      rw [phraseWords, if_neg hstop]
      rw [skipSpace_eq] at ih
      show i ≤ (phraseWords input (skipSpace input stop)).2
      rw [skipSpace_eq]
      omega

theorem phraseAt_lt {i stop : ℕ} {words : List Text} (h : phraseAt input i = some (words, stop)) :
    i < stop ∧ stop ≤ input.length := by
  unfold phraseAt at h
  obtain ⟨j, hopen, h⟩ := Option.bind_eq_some_iff.mp h
  obtain ⟨last, hclose, h⟩ := Option.bind_eq_some_iff.mp h
  cases h
  have hj := charAt_eq hopen
  have hlast := charAt_eq hclose
  have hwords : j ≤ (phraseWords input j).2 := phraseWords_le j
  omega

theorem bodyAt_lt {i stop : ℕ} {b : Body} (h : bodyAt input i = some (b, stop)) :
    i < stop ∧ stop ≤ input.length := by
  unfold bodyAt at h
  split at h
  next words last hphrase =>
    cases h
    exact phraseAt_lt hphrase
  next =>
    split at h
    next t last hterm =>
      cases h
      exact termAt_lt hterm
    next =>
      obtain ⟨r, hcode, h⟩ := Option.map_eq_some_iff.mp h
      cases h
      exact shortcodeAt_lt (t := r.1) hcode

theorem le_operatorAt (i : ℕ) : i ≤ (operatorAt input i).2 := by
  unfold operatorAt
  split
  next =>
    split
    next => exact Nat.le_succ i
    next => exact Nat.le_refl i
  next => exact Nat.le_refl i

theorem fullClauseAt_lt {i stop : ℕ} {c : Parsed} (h : fullClauseAt input i = some (c, stop)) :
    i < stop ∧ stop ≤ input.length := by
  have hop : i ≤ (operatorAt input i).2 := le_operatorAt i
  unfold fullClauseAt at h
  dsimp only at h
  split at h
  next f last hprefix =>
    have hlast := prefixAt_lt hprefix
    obtain ⟨r, hbody, h⟩ := Option.map_eq_some_iff.mp h
    cases h
    have hr := bodyAt_lt (b := r.1) hbody
    omega
  next =>
    obtain ⟨r, hbody, h⟩ := Option.map_eq_some_iff.mp h
    cases h
    have hr := bodyAt_lt (b := r.1) hbody
    omega

theorem clauseAt_lt {i stop : ℕ} {c : Parsed} (h : clauseAt input i = some (c, stop)) :
    i < stop ∧ stop ≤ input.length := by
  unfold clauseAt at h
  split at h
  next found hfull =>
    cases h
    exact fullClauseAt_lt hfull
  next =>
    split at h
    next t last hprefix =>
      cases h
      exact prefixAt_lt hprefix
    next =>
      obtain ⟨last, hquote, h⟩ := Option.map_eq_some_iff.mp h
      cases h
      exact charAt_eq hquote

/-! ### The whole query -/

theorem parseLoop_derives {steps i j : ℕ} {clauses found : List Parsed}
    (f : List Parsed → List Parsed)
    (h : parseLoop input steps i clauses = some (j, found)) :
    ∃ more, found = clauses ++ more ∧
      Derives (.many f (.seq (fun c _ => c) clause (.maybe (fun _ => ()) space)))
        (input.drop i) (some (f more, input.drop j)) := by
  have hpart := (clauseAt_reads input).seq (skipSpace_reads input) fun c _ => c
  induction steps generalizing i clauses f with
  | zero => cases h
  | succ steps ih =>
      have hi := hpart i
      dsimp only at hi
      rw [parseLoop] at h
      split at h
      next c stop hclause =>
        rw [hclause] at hi
        obtain ⟨more, hfound, hrest⟩ := ih (fun cs => f (c :: cs)) h
        exact ⟨c :: more, by rw [hfound, List.append_assoc, List.singleton_append],
          .step hi hrest⟩
      next hclause =>
        rw [hclause] at hi
        cases h
        exact ⟨[], (List.append_nil _).symm, .stop hi⟩

theorem parseLoop_ends {steps i : ℕ} (clauses : List Parsed) (hi : i ≤ input.length)
    (hsteps : input.length - i < steps) :
    ∃ j found, parseLoop input steps i clauses = some (j, found) ∧ j ≤ input.length := by
  induction steps generalizing i clauses with
  | zero => omega
  | succ steps ih =>
      rw [parseLoop]
      split
      next c stop hclause =>
        have hstop := clauseAt_lt hclause
        have hskip := le_scan isWhitespace input stop
        have hend := scan_le (p := isWhitespace) hstop.2
        rw [skipSpace_eq]
        exact ih (clauses ++ [c]) hend (by omega)
      next => exact ⟨i, clauses, rfl, hi⟩

theorem parseLoop_mono {steps steps' i j : ℕ} {clauses found : List Parsed}
    (hle : steps ≤ steps') (h : parseLoop input steps i clauses = some (j, found)) :
    parseLoop input steps' i clauses = some (j, found) := by
  induction steps generalizing steps' i clauses with
  | zero => cases h
  | succ steps ih =>
      obtain ⟨more, rfl⟩ := Nat.exists_eq_add_of_le' hle
      rw [show more + (steps + 1) = more + steps + 1 from rfl, parseLoop]
      rw [parseLoop] at h
      split at h
      next c stop hclause => exact ih (Nat.le_add_left steps more) h
      next hclause => exact h

theorem parseLoop_settled (text : Text) :
    ∃ j found, j ≤ text.length ∧ Derives query text (some (found, text.drop j)) ∧
      (∀ steps, text.length < steps → parseLoop text steps 0 [] = some (j, found)) ∧
      ∀ steps r, parseLoop text steps 0 [] = some r → r = (j, found) := by
  have hsome : ∃ j found, parseLoop text (text.length + 1) 0 [] = some (j, found) ∧
      j ≤ text.length := parseLoop_ends [] (Nat.zero_le _) (by omega)
  obtain ⟨j, found, hends, hj⟩ := hsome
  obtain ⟨more, hfound, hderives⟩ := parseLoop_derives id hends
  rw [List.nil_append] at hfound
  subst hfound
  refine ⟨j, found, hj, hderives, fun steps h => parseLoop_mono h hends, ?_⟩
  intro steps r hr
  have hlong := parseLoop_mono (Nat.le_max_left steps (text.length + 1)) (show
    parseLoop text steps 0 [] = some (r.1, r.2) from hr)
  rw [parseLoop_mono (Nat.le_max_right steps (text.length + 1)) hends] at hlong
  exact (Option.some.inj hlong).symm

/-- The parser on every query: in more steps than the query has characters, its loop has ended;
it returns clauses where the grammar derives them from the whole query, and an error where it
derives none; and no clause is empty. -/
theorem parse_iff_derives (text : Text) :
    (∃ result, ∀ steps, text.length < steps → parse steps text = some result) ∧
      (∀ clauses, (∃ steps, parse steps text = some (.ok clauses)) ↔
        Derives query text (some (clauses, []))) ∧
      ((∃ steps, parse steps text = some (.error .parseFailed)) ↔
        ¬ ∃ clauses, Derives query text (some (clauses, []))) ∧
      ∀ i c stop, clauseAt text i = some (c, stop) → i < stop ∧ stop ≤ text.length := by
  obtain ⟨j, found, hj, hderives, hends, hsame⟩ := parseLoop_settled text
  have hresult (steps : ℕ) (result : Except QueryError (List Parsed))
      (h : parse steps text = some result) :
      result = if j = text.length then .ok found else .error .parseFailed := by
    obtain ⟨r, hr, h⟩ := Option.map_eq_some_iff.mp h
    rw [hsame steps r hr] at h
    exact h.symm
  have hparse (steps : ℕ) (h : text.length < steps) :
      parse steps text = some (if j = text.length then .ok found else .error .parseFailed) := by
    rw [parse, hends steps h]
    rfl
  have hwhole (clauses : List Parsed) :
      Derives query text (some (clauses, [])) ↔ j = text.length ∧ found = clauses := by
    constructor
    · intro h
      have heq := Option.some.inj (hderives.unique h)
      have hdrop := List.drop_eq_nil_iff.mp (Prod.ext_iff.mp heq).2
      exact ⟨Nat.le_antisymm hj hdrop, (Prod.ext_iff.mp heq).1⟩
    · intro h
      rw [h.1, h.2, List.drop_length] at hderives
      exact hderives
  refine ⟨⟨_, hparse⟩, ?_, ?_, fun i c stop h => clauseAt_lt h⟩
  · intro clauses
    rw [hwhole]
    constructor
    · intro ⟨steps, h⟩
      have hr := hresult steps _ h
      split at hr
      next hend => exact ⟨hend, (Except.ok.inj hr).symm⟩
      next => cases hr
    · intro h
      refine ⟨text.length + 1, ?_⟩
      rw [hparse _ (Nat.lt_succ_self _), if_pos h.1, h.2]
  · constructor
    · intro ⟨steps, h⟩ ⟨clauses, hclauses⟩
      have hr := hresult steps _ h
      rw [if_pos ((hwhole clauses).mp hclauses).1] at hr
      cases hr
    · intro h
      refine ⟨text.length + 1, ?_⟩
      rw [hparse _ (Nat.lt_succ_self _), if_neg]
      intro hend
      exact h ⟨found, (hwhole found).mpr ⟨hend, rfl⟩⟩

example : parse 1 [] = some (.ok []) := by decide +kernel

end Eunha.SearchQuery
