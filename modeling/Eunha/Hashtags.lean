import Eunha.Runs
import Mathlib

/-!
# The names of hashtags

A hashtag is stored under a normal form of the spelling it was first written with: composed,
lower-cased, folded to ASCII where a letter has an ASCII form, and stripped of what no hashtag
holds. What Unicode defines is taken as given. What is stripped last may have kept two
characters apart that compose, and then the name is not its own normal form.
-/
namespace Eunha.Hashtags
open Runs

abbrev Text := List Char

/-- What Unicode defines, and how the database lower-cases. -/
structure Unicode where
  nfkc : Text → Text
  toLowercase : Text → Text
  /-- The canonical decomposition of a character. -/
  nfd : Char → Text
  isAlphanumeric : Char → Bool
  isCombiningMark : Char → Bool
  isWhitespace : Char → Bool
  lower : Text → Text

variable (u : Unicode)

/-! ### Normal forms -/

def separators : Text := ['_', '\u00B7', '\u30FB', '\u200C']

/-- What `HASHTAG_INVALID_CHARS_RE` does not reject. -/
def kept (c : Char) : Bool :=
  u.isAlphanumeric c || (0x0E47 ≤ c.toNat && c.toNat ≤ 0x0E4E) || separators.contains c

def specials : List (Char × Text) :=
  [('ß', ['s', 's']), ('æ', ['a', 'e']), ('œ', ['o', 'e']), ('ø', ['o']), ('đ', ['d']),
    ('ð', ['d']), ('ł', ['l']), ('þ', ['t', 'h']), ('ħ', ['h']), ('ı', ['i']), ('ŀ', ['l']),
    ('ŧ', ['t']), ('ĳ', ['i', 'j']), ('ﬀ', ['f', 'f']), ('ﬁ', ['f', 'i']), ('ﬂ', ['f', 'l'])]

def foldSpecial (c : Char) : Option Text := specials.lookup c

def foldChar (c : Char) : Text :=
  if c.toNat < 128 then [c]
  else
    match foldSpecial c with
    | some spelled => spelled
    | none =>
        match u.nfd c with
        | base :: marks =>
            if base.isAlpha && marks.all u.isCombiningMark then [base] else [c]
        | [] => [c]

def asciiFold (text : Text) : Text := text.flatMap (foldChar u)

def normalize (text : Text) : Text :=
  (asciiFold u (u.toLowercase (u.nfkc text))).filter (kept u)

/-! ### Stored tags -/

structure Tag where
  id : ℕ
  name : Text
  deriving DecidableEq

/-- `written.trim().trim_start_matches('#')` -/
def strip (written : Text) : Text :=
  ((written.dropWhile u.isWhitespace).rdropWhile u.isWhitespace).dropWhile (· = '#')

def named (tags : List Tag) (name : Text) : Option Tag :=
  tags.find? fun t => u.lower t.name = u.lower name

/-- `find_or_create`, where the sequence gives the next id. -/
def findOrCreate (tags : List Tag) (next : ℕ) (written : Text) : List Tag × Option ℕ :=
  let name := normalize u (strip u written)
  if name = [] then (tags, none)
  else
    match named u tags name with
    | some t => (tags, some t.id)
    | none => (⟨next, name⟩ :: tags, some next)

/-- The tags once `find_or_create` has run, with the id it would give. -/
def created (tags : List Tag) (op : ℕ × Text) : List Tag := (findOrCreate u tags op.1 op.2).1

/-- `index_tags_on_name_lower_btree` -/
def Unique (tags : List Tag) : Prop := (tags.map fun t => u.lower t.name).Nodup

/-! ### A normal form again -/

def Lowered (c : Char) : Prop := u.toLowercase [c] = [c]

/-- What is relied on of Unicode: characters that were lower-cased stay as they are, with the
letters they decompose to, and what is trimmed from a spelling is in no hashtag. -/
structure Unicode.Documented : Prop where
  lowered : ∀ text, ∀ c ∈ u.toLowercase text, Lowered u c
  toLowercase_lowered : ∀ text, (∀ c ∈ text, Lowered u c) → u.toLowercase text = text
  lowered_base : ∀ c base marks, Lowered u c → u.nfd c = base :: marks → base.isAlpha = true →
    Lowered u base
  lowered_ascii : ∀ c, c.isLower = true → Lowered u c
  invalid : ∀ c, c = '#' ∨ u.isWhitespace c = true → kept u c = false

variable {u}

theorem special_ascii : ∀ s ∈ specials, ∀ c ∈ s.2, c.isLower = true ∧ c.toNat < 128 := by
  unfold specials
  simp only [List.forall_mem_cons, List.not_mem_nil, false_imp_iff, implies_true, and_true]
  decide

theorem mem_of_lookup {c : Char} {table : List (Char × Text)} {spelled : Text}
    (h : table.lookup c = some spelled) : (c, spelled) ∈ table := by
  induction table with
  | nil => cases h
  | cons entry table ih =>
      rw [List.lookup_cons] at h
      by_cases heq : c = entry.1
      · rw [heq, beq_self_eq_true] at h
        cases h
        rw [heq]
        exact List.mem_cons_self
      · rw [beq_eq_false_iff_ne.mpr heq] at h
        exact List.mem_cons_of_mem entry (ih h)

theorem foldChar_ascii {c : Char} (h : c.toNat < 128) : foldChar u c = [c] := if_pos h

theorem isAlpha_ascii {c : Char} (h : c.isAlpha = true) : c.toNat < 128 := by
  unfold Char.isAlpha Char.isUpper Char.isLower at h
  simp only [Bool.or_eq_true, Bool.and_eq_true, decide_eq_true_eq, ge_iff_le,
    UInt32.le_iff_toNat_le] at h
  change (65 ≤ c.toNat ∧ c.toNat ≤ 90) ∨ (97 ≤ c.toNat ∧ c.toNat ≤ 122) at h
  omega

/-- A folded character is not folded again, and is lower-case where the character was. -/
theorem folded {c d : Char} (hd : d ∈ foldChar u c) :
    foldChar u d = [d] ∧ (u.Documented → Lowered u c → Lowered u d) := by
  have hwhole := hd
  unfold foldChar at hd
  by_cases hascii : c.toNat < 128
  · rw [if_pos hascii, List.mem_singleton] at hd
    rw [hd]
    exact ⟨foldChar_ascii hascii, fun _ h => h⟩
  rw [if_neg hascii] at hd
  cases hspecial : foldSpecial c with
  | some spelled =>
      rw [hspecial] at hd
      obtain ⟨hlower, hsmall⟩ := special_ascii _ (mem_of_lookup hspecial) d hd
      exact ⟨foldChar_ascii hsmall, fun hu _ => hu.lowered_ascii d hlower⟩
  | none =>
      rw [hspecial] at hd
      have hsame : d = c → foldChar u d = [d] ∧ (u.Documented → Lowered u c → Lowered u d) := by
        rintro rfl
        refine ⟨?_, fun _ h => h⟩
        unfold foldChar at hwhole ⊢
        rw [if_neg hascii, hspecial] at hwhole ⊢
        simp only at hwhole ⊢
        cases hnfd : u.nfd d with
        | nil => rfl
        | cons base marks =>
            rw [hnfd] at hwhole
            simp only at hwhole ⊢
            split_ifs at hwhole ⊢ with hletter
            · rw [← List.mem_singleton.mp hwhole]
            · rfl
      cases hnfd : u.nfd c with
      | nil =>
          rw [hnfd] at hd
          exact hsame (List.mem_singleton.mp hd)
      | cons base marks =>
          rw [hnfd] at hd
          simp only at hd
          split_ifs at hd with hletter
          · rw [List.mem_singleton.mp hd]
            have halpha := (Bool.and_eq_true_iff.mp hletter).1
            exact ⟨foldChar_ascii (isAlpha_ascii halpha),
              fun hu h => hu.lowered_base c base marks h hnfd halpha⟩
          · exact hsame (List.mem_singleton.mp hd)

theorem asciiFold_folded {text : Text} (h : ∀ c ∈ text, foldChar u c = [c]) :
    asciiFold u text = text := by
  unfold asciiFold
  induction text with
  | nil => rfl
  | cons c text ih =>
      rw [List.flatMap_cons, h c List.mem_cons_self,
        ih fun d hd => h d (List.mem_cons_of_mem c hd)]
      rfl

theorem normalize_normalize (hu : u.Documented) {text : Text}
    (h : u.nfkc (normalize u text) = normalize u text) :
    normalize u (normalize u text) = normalize u text := by
  have hchars : ∀ d ∈ normalize u text, foldChar u d = [d] ∧ Lowered u d ∧ kept u d = true := by
    intro d hd
    obtain ⟨hmem, hkept⟩ := List.mem_filter.mp hd
    obtain ⟨c, hc, hfold⟩ := List.mem_flatMap.mp hmem
    obtain ⟨hagain, hlowered⟩ := folded hfold
    exact ⟨hagain, hlowered hu (hu.lowered _ c hc), hkept⟩
  rw [normalize, h, hu.toLowercase_lowered _ fun d hd => (hchars d hd).2.1,
    asciiFold_folded fun d hd => (hchars d hd).1]
  exact List.filter_eq_self.mpr fun d hd => (hchars d hd).2.2

theorem dropWhile_none {p : Char → Bool} {text : Text} (h : ∀ c ∈ text, p c = false) :
    text.dropWhile p = text := by
  cases text with
  | nil => rfl
  | cons c text =>
      rw [List.dropWhile_cons_of_neg]
      rw [h c List.mem_cons_self]
      exact Bool.false_ne_true

theorem strip_normalize (hu : u.Documented) (text : Text) :
    strip u (normalize u text) = normalize u text := by
  have hkept : ∀ c ∈ normalize u text, c ≠ '#' ∧ u.isWhitespace c = false := by
    intro c hc
    have htrue := (List.mem_filter.mp hc).2
    constructor
    · intro heq
      rw [hu.invalid c (.inl heq)] at htrue
      cases htrue
    · rw [← Bool.not_eq_true]
      intro hspace
      rw [hu.invalid c (.inr hspace)] at htrue
      cases htrue
  unfold strip
  rw [dropWhile_none fun c hc => (hkept c hc).2, List.rdropWhile,
    dropWhile_none fun c hc => (hkept c (List.mem_reverse.mp hc)).2, List.reverse_reverse,
    dropWhile_none fun c hc => decide_eq_false (hkept c hc).1]

theorem named_of_mem {tags : List Tag} (hunique : Unique u tags) {t : Tag} (ht : t ∈ tags) :
    named u tags t.name = some t := by
  unfold named
  unfold Unique at hunique
  induction tags with
  | nil => cases ht
  | cons other tags ih =>
      rw [List.map_cons, List.nodup_cons] at hunique
      rcases List.mem_cons.mp ht with rfl | hmem
      · exact List.find?_cons_of_pos (decide_eq_true rfl)
      · rw [List.find?_cons_of_neg]
        · exact ih hunique.2 hmem
        · intro heq
          apply hunique.1
          rw [of_decide_eq_true heq]
          exact List.mem_map_of_mem hmem

/-- A name in NFKC is its own normal form, and its tag is found by it. -/
theorem own_normal_form (u : Unicode) (hu : u.Documented) (text : Text)
    (h : u.nfkc (normalize u text) = normalize u text) :
    normalize u (normalize u text) = normalize u text ∧
      ∀ tags next t, Unique u tags → t ∈ tags → t.name = normalize u text → t.name ≠ [] →
        findOrCreate u tags next t.name = (tags, some t.id) := by
  refine ⟨normalize_normalize hu h, fun tags next t hunique ht hname hne => ?_⟩
  have hsame : normalize u (strip u t.name) = t.name := by
    rw [hname, strip_normalize hu, normalize_normalize hu h]
  unfold findOrCreate
  rw [hsame]
  simp only [if_neg hne, named_of_mem hunique ht]

/-! ### One after another -/

theorem created_kept (tags : List Tag) (op : ℕ × Text) :
    tags <:+ created u tags op ∧
      ∀ name t, named u tags name = some t → named u (created u tags op) name = some t := by
  simp only [created, findOrCreate]
  split_ifs
  · exact ⟨List.suffix_rfl, fun _ _ h => h⟩
  · cases hnamed : named u tags (normalize u (strip u op.2)) with
    | some found => exact ⟨List.suffix_rfl, fun _ _ h => h⟩
    | none =>
        refine ⟨List.suffix_cons _ _, fun name t h => ?_⟩
        refine (List.find?_cons_of_neg fun heq => ?_).trans h
        -- A tag with that name would have been found.
        rw [named, of_decide_eq_true heq] at hnamed
        cases hnamed.symm.trans h

theorem findOrCreate_named (tags : List Tag) (next : ℕ) (written : Text)
    (hname : normalize u (strip u written) ≠ []) :
    ∃ t, (findOrCreate u tags next written).2 = some t.id ∧
      named u (created u tags (next, written)) (normalize u (strip u written)) = some t := by
  simp only [created, findOrCreate, if_neg hname]
  cases hnamed : named u tags (normalize u (strip u written)) with
  | some t => exact ⟨t, rfl, hnamed⟩
  | none => exact ⟨⟨next, _⟩, rfl, List.find?_cons_of_pos (decide_eq_true rfl)⟩

/-- Whatever is found or created after a tag, its every spelling is that tag, and no tag is
renamed or removed. -/
theorem resolved_for_good (u : Unicode) (tags : List Tag) (next next' : ℕ) (written written' : Text)
    (hsame : normalize u (strip u written') = normalize u (strip u written))
    (more : List (ℕ × Text)) :
    tags <:+ run (created u) tags ((next, written) :: more) ∧
      findOrCreate u (run (created u) tags ((next, written) :: more)) next' written' =
        (run (created u) tags ((next, written) :: more), (findOrCreate u tags next written).2) := by
  refine ⟨run_invariant (P := (tags <:+ ·)) (fun s op h => h.trans (created_kept s op).1) _ _
    List.suffix_rfl, ?_⟩
  by_cases hname : normalize u (strip u written) = []
  · simp only [findOrCreate, hsame, if_pos hname]
  · obtain ⟨t, hid, ht⟩ := findOrCreate_named tags next written hname
    have hlater := run_invariant (P := fun s => named u s (normalize u (strip u written)) = some t)
      (fun s op => (created_kept s op).2 _ t) _ more ht
    rw [hid, findOrCreate, hsame, if_neg hname, run_cons, hlater]

/-! ### Hangul -/

/-- A leading consonant and a vowel compose to a syllable. -/
def composeHangul : Text → Text
  | l :: v :: rest =>
      if 0x1100 ≤ l.toNat && l.toNat < 0x1113 && 0x1161 ≤ v.toNat && v.toNat < 0x1176 then
        Char.ofNat (0xAC00 + ((l.toNat - 0x1100) * 21 + (v.toNat - 0x1161)) * 28) ::
          composeHangul rest
      else l :: composeHangul (v :: rest)
  | text => text

def hangul : Unicode where
  nfkc := composeHangul
  toLowercase text := text.map Char.toLower
  nfd c := [c]
  isAlphanumeric c :=
    c.isAlphanum || (0x1100 ≤ c.toNat && c.toNat < 0x1200) || (0xAC00 ≤ c.toNat && c.toNat < 0xD7A4)
  isCombiningMark _ := false
  isWhitespace c := c.isWhitespace
  lower text := text.map Char.toLower

theorem hangul_documented : hangul.Documented where
  lowered := by
    intro text c hc
    obtain ⟨d, -, rfl⟩ := List.mem_map.mp hc
    exact congrArg (fun e => [e]) (Char.toLower_toLower_eq_toLower d)
  toLowercase_lowered := by
    intro text h
    conv_rhs => rw [← List.map_id text]
    exact List.map_congr_left fun c hc => List.singleton_inj.mp (h c hc)
  lowered_base := by
    intro c base marks h hnfd _
    cases hnfd
    exact h
  lowered_ascii := by
    intro c hc
    refine congrArg (fun e => [e]) (Char.toLower_eq_of_not_isUpper ?_)
    unfold Char.isLower at hc
    unfold Char.isUpper
    simp only [Bool.and_eq_true, decide_eq_true_eq, ge_iff_le, UInt32.le_iff_toNat_le] at hc ⊢
    change 97 ≤ c.toNat ∧ c.toNat ≤ 122 at hc
    change ¬ (65 ≤ c.toNat ∧ c.toNat ≤ 90)
    omega
  invalid := by
    intro c hc
    unfold hangul Char.isWhitespace at hc
    simp only [Bool.or_eq_true, decide_eq_true_eq] at hc
    rcases hc with rfl | ((rfl | rfl) | rfl) | rfl <;> decide +kernel

example : normalize hangul ['ᄀ', 'ᅡ', 'A'] = ['가', 'a'] := by decide +kernel

/-- The hyphen goes, and the syllable it kept apart composes. -/
theorem kept_apart : normalize hangul (normalize hangul ['ᄀ', '-', 'ᅡ']) ≠
    normalize hangul ['ᄀ', '-', 'ᅡ'] := by
  decide +kernel

theorem own_normal_form_hangul :
    normalize hangul (normalize hangul ['ᄀ', 'ᅡ', 'A']) = normalize hangul ['ᄀ', 'ᅡ', 'A'] ∧
      ∀ tags next t, Unique hangul tags → t ∈ tags →
        t.name = normalize hangul ['ᄀ', 'ᅡ', 'A'] → t.name ≠ [] →
          findOrCreate hangul tags next t.name = (tags, some t.id) :=
  own_normal_form hangul hangul_documented ['ᄀ', 'ᅡ', 'A'] (by decide +kernel)

theorem resolved_for_good_hangul :
    findOrCreate hangul (run (created hangul) [] [(1, ['#', '가']), (2, ['나'])]) 3 ['ᄀ', 'ᅡ'] =
      (run (created hangul) [] [(1, ['#', '가']), (2, ['나'])], some 1) :=
  (resolved_for_good hangul [] 1 3 ['#', '가'] ['ᄀ', 'ᅡ'] (by decide +kernel) [(2, ['나'])]).2

end Eunha.Hashtags
