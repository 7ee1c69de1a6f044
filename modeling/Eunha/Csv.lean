import Eunha.Chars
import Mathlib.Data.List.Basic
import Mathlib.Data.List.Infix

/-!
# CSV as the exports write it and the imports read it

A text is the list of its characters. The reader takes the first line ending of
the data, quoted or not, for the row separator, while the writer ends rows with a
line feed. So what is written is read back when no carriage return comes before
the first line feed, and is an error otherwise: the first row then ends where the
reader sees no end.
-/
namespace Eunha.Csv

abbrev Text := List Char

/-- One field: `none` is the nil one. -/
abbrev Field := Option Text

def isBreak (c : Char) : Bool := c = '\r' || c = '\n'

/-! ### Writing -/

/-- `field.replace('"', "\"\"")`. -/
def escape (value : Text) : Text := value.flatMap fun c => if c = '"' then ['"', '"'] else [c]

def special (c : Char) : Bool := c = '"' || c = ',' || isBreak c

def writeField : Field → Text
  | none => []
  | some value =>
      if value.isEmpty || value.any special then '"' :: (escape value ++ ['"']) else value

def writeFields (fields : List Field) : Text := [','].intercalate (fields.map writeField)

def writeRow (out : Text) (fields : List Field) : Text := out ++ writeFields fields ++ ['\n']

def writeRows (rows : List (List Field)) : Text := rows.foldl writeRow []

/-! ### Reading -/

inductive RowSep where
  | lf
  | cr
  | crlf
  deriving DecidableEq

def RowSep.text : RowSep → Text
  | .lf => ['\n']
  | .cr => ['\r']
  | .crlf => ['\r', '\n']

def rowSepOf (text : Text) : RowSep :=
  match text.dropWhile fun c => !isBreak c with
  | '\r' :: '\n' :: _ => .crlf
  | '\r' :: _ => .cr
  | _ => .lf

/-- `rest.is_empty() || rest.starts_with(row_sep)`. -/
def atRowEnd (sep : RowSep) (rest : Text) : Bool := rest.isEmpty || sep.text.isPrefixOf rest

def readQuoted : Text → Option (Text × ℕ × Text)
  | [] => none
  | c :: t =>
      if c = '"' then
        match t with
        | '"' :: t => (readQuoted t).map fun (value, lines, rest) => ('"' :: value, lines, rest)
        | t => some ([], 0, t)
      else
        (readQuoted t).map fun (value, lines, rest) =>
          (c :: value, if c = '\n' then lines + 1 else lines, rest)

def pushed (sep : RowSep) (field : Field) (rest : Text) : List Field × Text :=
  match rest with
  | ',' :: after => (if atRowEnd sep after then [field, none] else [field], after)
  | rest => ([field], rest)

def unquoted (value : Text) : Field := if value.isEmpty then none else some value

def debugChar (c : Char) : String :=
  if c = '\n' then "'\\n'" else if c = '\r' then "'\\r'" else s!"'{c}'"

def illegalNewLine (rest : Text) (line : ℕ) : String :=
  let c := debugChar (rest.headD '\n')
  s!"Unquoted fields do not allow new line <{c}> in line {line}."

def inField (sep : RowSep) (c : Char) : Bool := !(c = ',' || sep.text.head? = some c || isBreak c)

def readField (sep : RowSep) (line : ℕ) (rest : Text) :
    Except String ((List Field × Text) × ℕ) :=
  match rest with
  | '"' :: quoted =>
      match readQuoted quoted with
      | none => .error s!"Unclosed quoted field in line {line}."
      | some (value, lines, rest) =>
          if rest.head? = some ',' || atRowEnd sep rest then
            .ok (pushed sep (some value) rest, line + lines)
          else .error s!"Any value after quoted field isn't allowed in line {line + lines}."
  | rest =>
      let value := rest.takeWhile (inField sep)
      let after := rest.dropWhile (inField sep)
      if value.contains '"' then .error s!"Illegal quoting in line {line}."
      else if atRowEnd sep after || after.head? = some ',' then
        .ok (pushed sep (unquoted value) after, line)
      else
        .error (illegalNewLine after line)

theorem readQuoted_length {t value rest : Text} {lines : ℕ}
    (h : readQuoted t = some (value, lines, rest)) : rest.length < t.length := by
  fun_induction readQuoted t generalizing value lines with
  | case1 => cases h
  | case2 t ih =>
      obtain ⟨⟨value', lines', rest'⟩, hread, heq⟩ := Option.map_eq_some_iff.mp h
      cases heq
      have := ih hread
      simp only [List.length_cons]
      omega
  | case3 => cases h; exact Nat.lt_succ_self _
  | case4 c t hc ih =>
      obtain ⟨⟨value', lines', rest'⟩, hread, heq⟩ := Option.map_eq_some_iff.mp h
      cases heq
      exact (ih hread).trans (Nat.lt_succ_self _)

theorem pushed_length (sep : RowSep) (field : Field) (rest : Text) :
    (pushed sep field rest).2.length ≤ rest.length := by
  unfold pushed
  split
  · exact Nat.le_succ _
  · exact le_rfl

theorem readField_length {sep : RowSep} {line line' : ℕ} {rest after : Text} {fields : List Field}
    (h : readField sep line rest = .ok ((fields, after), line')) (hend : atRowEnd sep rest = false) :
    after.length < rest.length := by
  unfold readField at h
  split at h
  · next quoted =>
      cases hread : readQuoted quoted with
      | none => simp [hread] at h
      | some r =>
          obtain ⟨value, lines, rest'⟩ := r
          simp only [hread] at h
          split_ifs at h
          injection h with h
          have hlen := readQuoted_length hread
          have hpushed := pushed_length sep (some value) rest'
          rw [(Prod.mk.inj h).1] at hpushed
          simp only [List.length_cons]
          exact (hpushed.trans_lt hlen).trans (Nat.lt_succ_self _)
  · next =>
      simp only at h
      split_ifs at h with hquote hsep
      injection h with h
      have hpushed := pushed_length sep (unquoted (rest.takeWhile (inField sep)))
        (rest.dropWhile (inField sep))
      have hlen := congrArg List.length (List.takeWhile_append_dropWhile (p := inField sep) (l := rest))
      rw [List.length_append] at hlen
      rw [(Prod.mk.inj h).1] at hpushed
      cases hvalue : rest.takeWhile (inField sep) with
      | cons c value =>
          rw [hvalue, List.length_cons] at hlen
          simp only at hpushed
          omega
      | nil =>
          -- Nothing read, so the field ends in a comma, which is.
          have hall : rest.dropWhile (inField sep) = rest := by
            have := List.takeWhile_append_dropWhile (p := inField sep) (l := rest)
            rwa [hvalue, List.nil_append] at this
          rw [hall, hend, Bool.false_or, decide_eq_true_eq] at hsep
          obtain ⟨rest', rfl⟩ := List.head?_eq_some_iff.mp hsep
          rw [hall] at h
          obtain ⟨-, rfl⟩ := Prod.mk.inj (Prod.mk.inj h).1
          exact Nat.lt_succ_self _

/-- The loop of `parse`: the rows so far, the one begun, the line, whether a row has
begun, and the rest of the text. -/
def readRows (sep : RowSep) (rows : List (List Field)) (row : List Field) (line : ℕ)
    (inRow : Bool) (rest : Text) : Except String (List (List Field)) :=
  if rest.isEmpty then .ok (if inRow then rows ++ [row] else rows)
  else if sep.text.isPrefixOf rest then
    readRows sep (if inRow then rows ++ [row] else rows) (if inRow then [] else row) (line + 1) false
      (rest.drop sep.text.length)
  else
    match _hread : readField sep line rest with
    | .error message => .error message
    | .ok ((fields, after), line) => readRows sep rows (row ++ fields) line true after
termination_by rest.length
decreasing_by
  · next hrest hsep =>
      have hsep : sep.text <+: rest := List.isPrefixOf_iff_prefix.mp hsep
      have hlen := hsep.length_le
      have hpos : 0 < sep.text.length := by cases sep <;> decide
      rw [List.length_drop]
      omega
  · next hrest hsep =>
      exact readField_length _hread (by simp [atRowEnd, hrest, hsep])

/-- The bytes of a prefix of the data that is UTF-8, as far as it goes. -/
def validUpTo (data : ByteArray) : ℕ :=
  ((List.range (data.size + 1)).reverse.find? fun n => (data.extract 0 n).validateUTF8).getD 0

def parse (data : ByteArray) : Except String (List (List Field)) :=
  match String.fromUTF8? data with
  | none =>
      let line := ((data.extract 0 (validUpTo data)).toList.filter (· = 10)).length + 1
      .error s!"Invalid byte sequence in UTF-8 in line {line}."
  | some text => readRows (rowSepOf text.toList) [] [] 1 false text.toList

/-! ### Reading what was written -/

theorem escape_cons (c : Char) (value : Text) :
    escape (c :: value) = (if c = '"' then ['"', '"'] else [c]) ++ escape value :=
  List.flatMap_cons

theorem readQuoted_cons {c : Char} (hc : c ≠ '"') (t : Text) :
    readQuoted (c :: t) = (readQuoted t).map fun (value, lines, rest) =>
      (c :: value, if c = '\n' then lines + 1 else lines, rest) := by
  conv_lhs => unfold readQuoted
  rw [if_neg hc]

theorem readQuoted_escape (value next : Text) (hnext : next.head? ≠ some '"') :
    ∃ lines, readQuoted (escape value ++ '"' :: next) = some (value, lines, next) := by
  induction value with
  | nil =>
      refine ⟨0, ?_⟩
      cases next with
      | nil => rfl
      | cons c next =>
          have hc : c ≠ '"' := fun h => hnext (by simp [h])
          simp [escape, readQuoted, hc]
  | cons c value ih =>
      obtain ⟨lines, ih⟩ := ih
      by_cases hc : c = '"'
      · exact ⟨lines, by simp [escape_cons, readQuoted, hc, ih]⟩
      · exact ⟨if c = '\n' then lines + 1 else lines, by
          simp [escape_cons, readQuoted_cons, hc, ih]⟩

theorem readField_unquoted (sep : RowSep) (line : ℕ) {c : Char} (hc : c ≠ '"') (t : Text) :
    readField sep line (c :: t) =
      let value := (c :: t).takeWhile (inField sep)
      let after := (c :: t).dropWhile (inField sep)
      if value.contains '"' then .error s!"Illegal quoting in line {line}."
      else if atRowEnd sep after || after.head? = some ',' then
        .ok (pushed sep (unquoted value) after, line)
      else
        .error (illegalNewLine after line) := by
  unfold readField
  split
  · next heq => cases heq; exact (hc rfl).elim
  · rfl

theorem inField_of_plain (sep : RowSep) {c : Char} (h : special c = false) :
    inField sep c = true := by
  simp only [special, isBreak, Bool.or_eq_false_iff, decide_eq_false_iff_not] at h
  obtain ⟨⟨-, hcomma⟩, hcr, hlf⟩ := h
  cases sep <;>
    simp [inField, RowSep.text, isBreak, hcomma, hcr, hlf, Ne.symm hcr, Ne.symm hlf]

theorem readField_writeField {sep : RowSep} (field : Field) {c : Char} (next : Text) (line : ℕ)
    (hstop : inField sep c = false) (hquote : c ≠ '"') :
    ∃ line' message, readField sep line (writeField field ++ c :: next) =
      if atRowEnd sep (c :: next) || (c :: next).head? = some ',' then
        .ok (pushed sep field (c :: next), line')
      else .error message := by
  cases field with
  | none =>
      have h := readField_unquoted sep line hquote next
      rw [List.takeWhile_cons_of_neg (by simp [hstop]), List.dropWhile_cons_of_neg (by simp [hstop])]
        at h
      exact ⟨line, _, h.trans (if_neg (by simp))⟩
  | some value =>
      by_cases hspecial : (value.isEmpty || value.any special) = true
      · obtain ⟨lines, hread⟩ := readQuoted_escape value (c :: next) (by simpa using hquote)
        refine ⟨line + lines,
          s!"Any value after quoted field isn't allowed in line {line + lines}.", ?_⟩
        simp only [writeField, if_pos hspecial]
        simp only [readField, List.cons_append, List.append_assoc, List.nil_append, hread]
        rw [Bool.or_comm]
      · simp only [writeField, if_neg hspecial]
        rw [Bool.or_eq_true, not_or] at hspecial
        obtain ⟨hnonempty, hplain⟩ := hspecial
        have hplain : ∀ d ∈ value, special d = false := by simpa using hplain
        cases value with
        | nil => exact (hnonempty rfl).elim
        | cons d value =>
            have hd : d ≠ '"' := fun h => by simpa [special, h] using hplain d (by simp)
            have hin : ∀ e ∈ d :: value, inField sep e = true := fun e he =>
              inField_of_plain sep (hplain e he)
            have hnoquote : ¬(d :: value).contains '"' = true := fun h => by
              simpa [special] using hplain '"' (List.contains_iff_mem.mp h)
            have h := readField_unquoted sep line hd (value ++ c :: next)
            rw [← List.cons_append, List.takeWhile_append_of_pos hin,
              List.dropWhile_append_of_pos hin, List.takeWhile_cons_of_neg (by simp [hstop]),
              List.dropWhile_cons_of_neg (by simp [hstop]), List.append_nil] at h
            exact ⟨line, _, h.trans (if_neg hnoquote)⟩

theorem readField_comma (sep : RowSep) (field : Field) (next : Text) (line : ℕ) :
    ∃ line', readField sep line (writeField field ++ ',' :: next) =
      .ok (pushed sep field (',' :: next), line') := by
  obtain ⟨line', message, h⟩ := readField_writeField (c := ',') field next line
    (show inField sep ',' = false by simp [inField]) (by decide)
  exact ⟨line', by rw [h, if_pos (by simp)]⟩

theorem readField_lf (sep : RowSep) (field : Field) (next : Text) (line : ℕ) :
    ∃ line' message, readField sep line (writeField field ++ '\n' :: next) =
      if sep = .lf then .ok (([field], '\n' :: next), line') else .error message := by
  obtain ⟨line', message, h⟩ := readField_writeField (c := '\n') field next line
    (show inField sep '\n' = false by simp [inField, isBreak]) (by decide)
  refine ⟨line', message, h.trans ?_⟩
  cases sep <;> rfl

/-! ### Rows -/

theorem writeFields_cons (field other : Field) (fields : List Field) :
    writeFields (field :: other :: fields) = writeField field ++ ',' :: writeFields (other :: fields) := by
  simp [writeFields, List.intercalate]

theorem writeFields_head {fields : List Field} (hne : fields ≠ []) (next : Text) :
    fields = [none] ∨
      ∃ c t, writeFields fields ++ next = c :: t ∧ isBreak c = false := by
  obtain ⟨field, fields, rfl⟩ := List.exists_cons_of_ne_nil hne
  cases field with
  | some value =>
      refine .inr ?_
      have hhead : ∃ c t, writeField (some value) = c :: t ∧ isBreak c = false := by
        unfold writeField
        by_cases hspecial : (value.isEmpty || value.any special) = true
        · exact ⟨'"', _, if_pos hspecial, by decide⟩
        · rw [Bool.or_eq_true, not_or] at hspecial
          cases value with
          | nil => exact (hspecial.1 rfl).elim
          | cons c value =>
              refine ⟨c, value, ?_, ?_⟩
              · simp only
                rw [if_neg (by simpa using hspecial)]
              · have := hspecial.2
                simp_all [special]
      obtain ⟨c, t, hwrite, hc⟩ := hhead
      cases fields with
      | nil => exact ⟨c, t ++ next, by simp [writeFields, hwrite], hc⟩
      | cons other fields =>
          exact ⟨c, _, by rw [writeFields_cons, hwrite]; rfl, hc⟩
  | none =>
      cases fields with
      | nil => exact .inl rfl
      | cons other fields =>
          exact .inr ⟨',', _, by rw [writeFields_cons]; rfl, by decide⟩

theorem not_atRowEnd {c : Char} (hc : isBreak c = false) (sep : RowSep) (t : Text) :
    atRowEnd sep (c :: t) = false := by
  simp only [isBreak, Bool.or_eq_false_iff, decide_eq_false_iff_not] at hc
  cases sep <;> simp [atRowEnd, RowSep.text, List.isPrefixOf, Ne.symm hc.1, Ne.symm hc.2]

section
variable {sep : RowSep} {rows : List (List Field)} {row fields : List Field} {line line' : ℕ}
variable {inRow : Bool} {rest after : Text}

theorem readRows_sep (hne : rest ≠ []) (hsep : sep.text <+: rest) :
    readRows sep rows row line inRow rest =
      readRows sep (if inRow then rows ++ [row] else rows) (if inRow then [] else row) (line + 1)
        false (rest.drop sep.text.length) := by
  conv_lhs => unfold readRows
  rw [if_neg (by simpa using hne), if_pos (List.isPrefixOf_iff_prefix.mpr hsep)]

theorem readRows_field (hend : atRowEnd sep rest = false)
    (hfield : readField sep line rest = .ok ((fields, after), line')) :
    readRows sep rows row line inRow rest = readRows sep rows (row ++ fields) line' true after := by
  simp only [atRowEnd, Bool.or_eq_false_iff] at hend
  conv_lhs => unfold readRows
  rw [if_neg (by simp [hend.1]), if_neg (by simp [hend.2])]
  split
  · next h => rw [hfield] at h; cases h
  · next h => rw [hfield] at h; cases h; rfl

theorem readRows_error {message : String} (hend : atRowEnd sep rest = false)
    (hfield : readField sep line rest = .error message) :
    readRows sep rows row line inRow rest = .error message := by
  simp only [atRowEnd, Bool.or_eq_false_iff] at hend
  unfold readRows
  rw [if_neg (by simp [hend.1]), if_neg (by simp [hend.2])]
  split
  · next h => rw [hfield] at h; cases h; rfl
  · next h => rw [hfield] at h; cases h

end

theorem readRows_writeFields {fields : List Field} (hne : fields ≠ []) (hnil : fields ≠ [none])
    (rows : List (List Field)) (row : List Field) (line : ℕ) (inRow : Bool) (tail : Text) :
    ∃ line', readRows .lf rows row line inRow (writeFields fields ++ '\n' :: tail) =
      readRows .lf (rows ++ [row ++ fields]) [] line' false tail := by
  have hsep : ∀ t : Text, RowSep.lf.text <+: '\n' :: t := fun t => ⟨t, rfl⟩
  induction fields generalizing row line inRow with
  | nil => exact (hne rfl).elim
  | cons field fields ih =>
      obtain ⟨c, t, htext, hc⟩ := (writeFields_head hne ('\n' :: tail)).resolve_left hnil
      have hend := not_atRowEnd hc .lf t
      rw [← htext] at hend
      cases fields with
      | nil =>
          obtain ⟨line', message, hread⟩ := readField_lf .lf field tail line
          refine ⟨line' + 1, ?_⟩
          rw [show writeFields [field] = writeField field by simp [writeFields]] at hend ⊢
          rw [readRows_field hend hread, readRows_sep (by simp) (hsep tail)]
          rfl
      | cons other fields =>
          rw [writeFields_cons, List.append_assoc, List.cons_append] at hend ⊢
          obtain ⟨line', hread⟩ := readField_comma .lf field
            (writeFields (other :: fields) ++ '\n' :: tail) line
          rw [readRows_field hend hread]
          rcases writeFields_head (List.cons_ne_nil other fields) ('\n' :: tail) with
            hlast | ⟨d, t', htext', hd⟩
          · refine ⟨line' + 1, ?_⟩
            rw [hlast, show writeFields [none] = [] from rfl, List.nil_append,
              if_pos (show atRowEnd .lf ('\n' :: tail) = true from rfl), readRows_sep (by simp) (hsep tail)]
            rfl
          · have hnil' : other :: fields ≠ [none] := by
              rintro h
              rw [h] at htext'
              cases htext'
              cases hd
            obtain ⟨line'', hrest⟩ := ih (List.cons_ne_nil other fields) hnil' (row ++ [field]) line' true
            refine ⟨line'', ?_⟩
            rw [htext', if_neg (by rw [not_atRowEnd hd]; simp), ← htext', hrest]
            simp

theorem readRows_error_of_cr {sep : RowSep} (hsep : sep ≠ .lf) {fields : List Field}
    (hne : fields ≠ []) (rows : List (List Field)) (row : List Field) (line : ℕ) (inRow : Bool)
    (tail : Text) :
    ∃ message, readRows sep rows row line inRow (writeFields fields ++ '\n' :: tail) =
      .error message := by
  have hlf : ∀ t : Text, atRowEnd sep ('\n' :: t) = false := fun t => by
    cases sep with
    | lf => exact (hsep rfl).elim
    | cr => rfl
    | crlf => rfl
  have hend : ∀ {fields : List Field}, fields ≠ [] →
      atRowEnd sep (writeFields fields ++ '\n' :: tail) = false := by
    intro fields hne
    rcases writeFields_head hne ('\n' :: tail) with rfl | ⟨c, t, htext, hc⟩
    · exact hlf tail
    · rw [htext]
      exact not_atRowEnd hc sep t
  induction fields generalizing row line inRow with
  | nil => exact (hne rfl).elim
  | cons field fields ih =>
      cases fields with
      | nil =>
          obtain ⟨line', message, hread⟩ := readField_lf sep field tail line
          rw [if_neg hsep] at hread
          have hend := hend (List.cons_ne_nil field [])
          rw [show writeFields [field] = writeField field by simp [writeFields]] at hend ⊢
          exact ⟨message, readRows_error hend hread⟩
      | cons other fields =>
          have hhere := hend (List.cons_ne_nil field (other :: fields))
          have hnext := hend (List.cons_ne_nil other fields)
          rw [writeFields_cons, List.append_assoc, List.cons_append] at hhere ⊢
          obtain ⟨line', hread⟩ := readField_comma sep field
            (writeFields (other :: fields) ++ '\n' :: tail) line
          rw [readRows_field hhere hread]
          rw [if_neg (by rw [hnext]; simp)]
          exact ih (List.cons_ne_nil other fields) _ line' true

/-! ### The separator of what was written -/

theorem filter_isBreak_escape (value : Text) :
    (escape value).filter isBreak = value.filter isBreak := by
  induction value with
  | nil => rfl
  | cons c value ih =>
      rw [escape_cons, List.filter_append, ih, List.filter_cons]
      by_cases hc : c = '"'
      · simp [hc, isBreak]
      · by_cases hbreak : isBreak c = true <;> simp [hc, hbreak]

theorem filter_isBreak_writeFields (fields : List Field) :
    (writeFields fields).filter isBreak = (fields.flatMap fun f => f.getD []).filter isBreak := by
  have hfield : ∀ field : Field, (writeField field).filter isBreak =
      (field.getD []).filter isBreak := by
    intro field
    cases field with
    | none => rfl
    | some value =>
        simp only [writeField, Option.getD_some]
        split_ifs
        · simp [filter_isBreak_escape, isBreak]
        · rfl
  induction fields with
  | nil => rfl
  | cons field fields ih =>
      cases fields with
      | nil => simp [writeFields, hfield]
      | cons other fields =>
          rw [writeFields_cons, List.filter_append, hfield, List.filter_cons_of_neg (by decide), ih]
          simp

theorem find?_isBreak (text : Text) : text.find? isBreak = (text.filter isBreak).head? :=
  List.head?_filter.symm

theorem rowSepOf_eq_lf (text : Text) :
    rowSepOf text = .lf ↔ text.find? isBreak ≠ some '\r' := by
  induction text with
  | nil => simp [rowSepOf]
  | cons c t ih =>
      by_cases hc : isBreak c = true
      · have hhere : rowSepOf (c :: t) = .lf ↔ c ≠ '\r' := by
          unfold rowSepOf
          rw [List.dropWhile_cons_of_neg (by simp [hc])]
          split <;> simp_all
        rw [hhere, List.find?_cons_of_pos hc, ne_eq, ne_eq, Option.some.injEq]
      · have hskip : rowSepOf (c :: t) = rowSepOf t := by
          unfold rowSepOf
          rw [List.dropWhile_cons_of_pos (by simpa using hc)]
        rw [hskip, ih, List.find?_cons_of_neg hc]

theorem writeRows_eq (rows : List (List Field)) :
    writeRows rows = rows.flatMap fun row => writeFields row ++ ['\n'] := by
  have hfold : ∀ out, rows.foldl writeRow out =
      out ++ rows.flatMap fun row => writeFields row ++ ['\n'] := by
    induction rows with
    | nil => simp
    | cons row rows ih => simp [ih, writeRow]
  exact hfold []

theorem writeRows_cons (row : List Field) (rows : List (List Field)) :
    writeRows (row :: rows) = writeFields row ++ '\n' :: writeRows rows := by
  simp [writeRows_eq]

def bytes (text : Text) : ByteArray := (String.ofList text).toUTF8

theorem parse_bytes (text : Text) :
    parse (bytes text) = readRows (rowSepOf text) [] [] 1 false text := by
  have hutf8 : String.fromUTF8? (bytes text) = some (String.ofList text) :=
    dif_pos (String.ofList text).isValidUTF8
  simp only [parse, hutf8, String.toList_ofList]

/-- No carriage return comes before the first line feed, in the fields of the first row
in order. -/
def BreaksInLf (rows : List (List Field)) : Prop :=
  ∀ row ∈ rows.head?, (row.flatMap fun f => f.getD []).find? isBreak ≠ some '\r'

theorem rowSepOf_writeRows (rows : List (List Field)) :
    rowSepOf (writeRows rows) = .lf ↔ BreaksInLf rows := by
  rw [rowSepOf_eq_lf]
  cases rows with
  | nil => simp [writeRows, BreaksInLf]
  | cons row rows =>
      rw [writeRows_cons, find?_isBreak, List.filter_append, filter_isBreak_writeFields]
      simp only [BreaksInLf, List.head?_cons, Option.mem_def, Option.some.injEq, forall_eq',
        find?_isBreak]
      cases (row.flatMap fun f => f.getD []).filter isBreak with
      | nil => simp [isBreak]
      | cons c t => simp

theorem readRows_writeRows {rows : List (List Field)} (hrows : ∀ row ∈ rows, row ≠ [] ∧ row ≠ [none])
    (before : List (List Field)) (line : ℕ) :
    readRows .lf before [] line false (writeRows rows) = .ok (before ++ rows) := by
  induction rows generalizing before line with
  | nil =>
      unfold readRows
      simp [writeRows]
  | cons row rows ih =>
      obtain ⟨hne, hnil⟩ := hrows row (by simp)
      obtain ⟨line', hread⟩ := readRows_writeFields hne hnil before [] line false (writeRows rows)
      rw [writeRows_cons, hread, ih (fun r hr => hrows r (List.mem_cons_of_mem row hr))]
      simp

/-- Rows with a field each, none of them the nil field alone, are read back from the
bytes they are written as when no carriage return of the first row comes before its
line feeds; otherwise reading them is an error. -/
theorem parse_writeRows (rows : List (List Field)) (hrows : ∀ row ∈ rows, row ≠ [] ∧ row ≠ [none]) :
    (BreaksInLf rows → parse (bytes (writeRows rows)) = .ok rows) ∧
    (¬BreaksInLf rows → ∃ message, parse (bytes (writeRows rows)) = .error message) := by
  rw [parse_bytes]
  constructor
  · intro h
    rw [(rowSepOf_writeRows rows).mpr h, readRows_writeRows hrows, List.nil_append]
  · intro h
    have hsep := mt (rowSepOf_writeRows rows).mp h
    cases rows with
    | nil => exact (h (by simp [BreaksInLf])).elim
    | cons row rows =>
        rw [writeRows_cons] at hsep ⊢
        exact readRows_error_of_cr hsep (hrows row (by simp)).1 _ _ _ _ _

example : parse (bytes ['a', ',', 'b', '\n']) = .ok [[some ['a'], some ['b']]] := by
  decide +kernel

/-- A header before the row with a carriage return: read back, the empty field and the
nil one as they were. -/
theorem parse_writeRows_header :
    let rows := [[some "Account address".toList, some "Note".toList],
      [some "a@b.example".toList, some "one\r\ntwo, \"three\"".toList], [some [], none]]
    parse (bytes (writeRows rows)) = .ok rows :=
  (parse_writeRows _ (by decide)).1 (by
    intro row hrow
    cases hrow
    decide)

/-- Without the header the carriage return is the first line ending, and the second row
is an error. -/
theorem carriage_return_first :
    let rows := [[some "one\r\ntwo".toList], [some "three".toList]]
    (∀ row ∈ rows, row ≠ [] ∧ row ≠ [none]) ∧
      parse (bytes (writeRows rows)) ≠ .ok rows := by
  refine ⟨by decide, ?_⟩
  obtain ⟨message, h⟩ := readRows_error_of_cr (show RowSep.crlf ≠ .lf by decide)
    (List.cons_ne_nil (some "one\r\ntwo".toList) []) [] [] 1 false
    (writeRows [[some "three".toList]])
  rw [parse_bytes, writeRows_cons, show rowSepOf _ = RowSep.crlf by decide +kernel, h]
  intro h
  cases h

end Eunha.Csv
