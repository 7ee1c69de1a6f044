import Eunha.Der
import Eunha.Aborts
import Mathlib.Data.List.Infix

/-!
# DER read from memory

`read` and `children` as they run: positions in a slice, numbers of 32 and 64 bits, shifts
and accesses that can go wrong. They never do, whatever the bytes are, and every value is
read where it stands: its contents end its encoding, and what follows the encoding is what is
read next.
-/
namespace Eunha.Der
open Aborts (Run abort returns throw_bind)

/-- Bytes in memory: no more of them than there are addresses. -/
structure Slice where
  bytes : List UInt8
  fits : bytes.length < 2 ^ 64

/-- `+` on 64 bits -/
def add (a b : ℕ) : Run ℕ := if a + b < 2 ^ 64 then pure (a + b) else abort

/-- `<<` on a number of some bits; none may be lost. -/
def shl (bits n k : ℕ) : Run ℕ := if n * 2 ^ k < 2 ^ bits then pure (n <<< k) else abort

/-- `bytes.get(pos)` -/
def get (bytes : List UInt8) (pos : ℕ) : Run UInt8 :=
  match bytes[pos]? with
  | some byte => pure byte
  | none => throw "DER ends early"

/-- `bytes[start..stop]` -/
def sliceOf (bytes : List UInt8) (start stop : ℕ) : Run (List UInt8) :=
  if start ≤ stop ∧ stop ≤ bytes.length then pure ((bytes.drop start).take (stop - start))
  else abort

def tagLoop (bytes : List UInt8) : ℕ → ℕ → ℕ → Run (ℕ × ℕ)
  | 0, _, _ => abort
  | turns + 1, pos, tag => do
      let byte ← get bytes pos
      let pos ← add pos 1
      if tag > (2 ^ 32 - 1) >>> 7 then throw "DER tag is too large"
      else
        let tag ← shl 32 tag 7
        let tag := tag ||| (byte &&& 0x7f).toNat
        if byte &&& 0x80 = 0 then pure (tag, pos) else tagLoop bytes turns pos tag

def lengthLoop (bytes : List UInt8) : ℕ → ℕ → ℕ → Run (ℕ × ℕ)
  | 0, pos, length => pure (length, pos)
  | count + 1, pos, length => do
      let byte ← get bytes pos
      let pos ← add pos 1
      let length ← shl 64 length 8
      lengthLoop bytes count pos (length ||| byte.toNat)

def tagAt (turns : ℕ) (bytes : List UInt8) (first : UInt8) (pos : ℕ) : Run (ℕ × ℕ) :=
  let tag := (first &&& 0x1f).toNat
  if tag = 0x1f then tagLoop bytes turns pos 0 else pure (tag, pos)

def lengthAt (bytes : List UInt8) (pos : ℕ) : Run (ℕ × ℕ) := do
  let byte ← get bytes pos
  let pos ← add pos 1
  if byte < 0x80 then pure (byte.toNat, pos)
  else
    let count := (byte &&& 0x7f).toNat
    if count = 0 ∨ count > 4 then throw "unsupported DER length"
    else lengthLoop bytes count pos 0

def endOf (bytes : List UInt8) (pos length : ℕ) : Run ℕ :=
  -- `checked_add`: an overflow is refused as what overruns is.
  if pos + length < 2 ^ 64 ∧ pos + length ≤ bytes.length then pure (pos + length)
  else throw "DER length overruns the data"

/-- One value off the front of the input, and the input after it, in so many turns. -/
def readAt (turns : ℕ) (bytes : List UInt8) : Run (Tlv × List UInt8) := do
  let first ← get bytes 0
  let (tag, pos) ← tagAt turns bytes first 1
  let (length, pos) ← lengthAt bytes pos
  let stop ← endOf bytes pos length
  let value ← sliceOf bytes pos stop
  let raw ← sliceOf bytes 0 stop
  let rest ← sliceOf bytes stop bytes.length
  pure ({ tagClass := (first >>> 6).toNat
          constructed := first &&& 0x20 ≠ 0
          tag := tag
          value := value
          raw := raw }, rest)

def childrenLoop : ℕ → List UInt8 → Run (List Tlv)
  | 0, _ => abort
  | turns + 1, rest =>
      if rest.isEmpty then pure []
      else do
        let (tlv, rest) ← readAt (turns + 1) rest
        let out ← childrenLoop turns rest
        pure (tlv :: out)

def childrenAt (turns : ℕ) (tlv : Tlv) : Run (List Tlv) :=
  if !tlv.constructed then throw "DER value is not constructed"
  else childrenLoop turns tlv.value

/-! ### Bits -/

theorem land_low (byte : UInt8) : (byte &&& 0x7f).toNat = byte.toNat % 128 := by
  rw [UInt8.toNat_and]
  exact Nat.and_two_pow_sub_one_eq_mod byte.toNat 7

theorem land_tag (byte : UInt8) : (byte &&& 0x1f).toNat = byte.toNat % 32 := by
  rw [UInt8.toNat_and]
  exact Nat.and_two_pow_sub_one_eq_mod byte.toNat 5

theorem land_high (byte : UInt8) : byte &&& 0x80 = 0 ↔ byte.toNat < 128 := by
  have h : ∀ n < 256, n &&& 128 = 0 ↔ n < 128 := by decide +kernel
  rw [← UInt8.toNat_inj, UInt8.toNat_and]
  exact h byte.toNat byte.toNat_lt

theorem land_constructed (byte : UInt8) : byte &&& 0x20 ≠ 0 ↔ byte.toNat / 32 % 2 = 1 := by
  have h : ∀ n < 256, n &&& 32 ≠ 0 ↔ n / 32 % 2 = 1 := by decide +kernel
  rw [Ne, ← UInt8.toNat_inj, UInt8.toNat_and]
  exact h byte.toNat byte.toNat_lt

theorem lor_low {n m : ℕ} (k : ℕ) (h : m < 2 ^ k) : n <<< k ||| m = n * 2 ^ k + m := by
  rw [← Nat.shiftLeft_add_eq_or_of_lt h, Nat.shiftLeft_eq]

/-! ### Positions and what is left there -/

inductive Agrees (bytes : List UInt8) : Run (ℕ × ℕ) → Result (ℕ × List UInt8) → Prop
  | ok {n pos : ℕ} (h : pos ≤ bytes.length) :
      Agrees bytes (pure (n, pos)) (.ok (n, bytes.drop pos))
  | error {why : String} : Agrees bytes (throw why) (.error why)

theorem add_one {bytes : List UInt8} {pos : ℕ} (hfits : bytes.length < 2 ^ 64)
    (h : pos < bytes.length) : add pos 1 = pure (pos + 1) := by
  rw [add, if_pos (by omega)]

theorem get_cases (bytes : List UInt8) (pos : ℕ) :
    (get bytes pos = throw "DER ends early" ∧ bytes.drop pos = []) ∨
      ∃ byte, get bytes pos = pure byte ∧ pos < bytes.length ∧
        bytes.drop pos = byte :: bytes.drop (pos + 1) := by
  unfold get
  cases h : bytes[pos]? with
  | none => exact .inl ⟨rfl, List.drop_eq_nil_of_le (List.getElem?_eq_none_iff.mp h)⟩
  | some byte =>
      obtain ⟨hpos, rfl⟩ := List.getElem?_eq_some_iff.mp h
      exact .inr ⟨_, rfl, hpos, List.drop_eq_getElem_cons hpos⟩

theorem tagLoop_agrees {bytes : List UInt8} (hfits : bytes.length < 2 ^ 64) {turns : ℕ}
    (pos tag : ℕ) (hturns : bytes.length - pos < turns) :
    Agrees bytes (tagLoop bytes turns pos tag) (highTag tag (bytes.drop pos)) := by
  induction turns generalizing pos tag with
  | zero => omega
  | succ turns ih =>
      rw [tagLoop]
      cases get_cases bytes pos with
      | inl hend =>
          rw [hend.1, hend.2, throw_bind]
          exact .error
      | inr hbyte =>
          obtain ⟨byte, hget, hpos, hdrop⟩ := hbyte
          have hlimit : (2 ^ 32 - 1) >>> 7 = (2 ^ 32 - 1) / 128 := rfl
          rw [hget, hdrop, pure_bind, add_one hfits hpos, pure_bind, highTag, hlimit]
          by_cases hlarge : tag > (2 ^ 32 - 1) / 128
          · rw [if_pos hlarge, if_pos hlarge]
            exact .error
          · have hshl : shl 32 tag 7 = pure (tag <<< 7) := by
              rw [shl, if_pos]
              norm_num at hlarge
              omega
            have hlow : byte.toNat % 128 < 2 ^ 7 := Nat.mod_lt _ (by norm_num)
            rw [if_neg hlarge, if_neg hlarge, hshl, pure_bind, land_low, lor_low 7 hlow]
            by_cases hlast : byte.toNat < 128
            · rw [if_pos ((land_high byte).mpr hlast), if_pos hlast]
              exact .ok hpos
            · rw [if_neg (mt (land_high byte).mp hlast), if_neg hlast]
              exact ih (pos + 1) _ (by omega)

theorem lengthLoop_agrees {bytes : List UInt8} (hfits : bytes.length < 2 ^ 64) {count : ℕ}
    (pos number : ℕ) (hpos : pos ≤ bytes.length)
    (hnumber : (number + 1) * 256 ^ count ≤ 2 ^ 64) :
    Agrees bytes (lengthLoop bytes count pos number)
      (bigEndian number count (bytes.drop pos)) := by
  induction count generalizing pos number with
  | zero =>
      rw [lengthLoop, bigEndian]
      exact .ok hpos
  | succ count ih =>
      rw [lengthLoop]
      cases get_cases bytes pos with
      | inl hend =>
          rw [hend.1, hend.2, throw_bind, bigEndian]
          exact .error
      | inr hbyte =>
          obtain ⟨byte, hget, hlt, hdrop⟩ := hbyte
          have hone : 1 ≤ 256 ^ count := Nat.one_le_pow _ _ (by norm_num)
          have hbound : (number + 1) * 256 ≤ 2 ^ 64 := by
            rw [pow_succ] at hnumber
            nlinarith
          have hshl : shl 64 number 8 = pure (number <<< 8) := by
            rw [shl, if_pos]
            norm_num
            omega
          have hlow : byte.toNat < 2 ^ 8 := byte.toNat_lt
          rw [hget, hdrop, pure_bind, add_one hfits hlt, pure_bind, hshl, pure_bind,
            lor_low 8 hlow, bigEndian]
          apply ih (pos + 1) _ hlt
          calc (number * 2 ^ 8 + byte.toNat + 1) * 256 ^ count
              ≤ ((number + 1) * 256) * 256 ^ count := Nat.mul_le_mul_right _ (by omega)
            _ = (number + 1) * 256 ^ (count + 1) := by rw [pow_succ]; ring
            _ ≤ 2 ^ 64 := hnumber

theorem tagAt_agrees {bytes : List UInt8} (hfits : bytes.length < 2 ^ 64) {turns : ℕ}
    (first : UInt8) (pos : ℕ) (hpos : pos ≤ bytes.length)
    (hturns : bytes.length - pos < turns) :
    Agrees bytes (tagAt turns bytes first pos) (readTag first (bytes.drop pos)) := by
  unfold tagAt readTag
  dsimp only
  rw [land_tag]
  by_cases h : first.toNat % 32 = 31
  · rw [if_pos h, if_pos h]
    exact tagLoop_agrees hfits pos 0 hturns
  · rw [if_neg h, if_neg h]
    exact .ok hpos

theorem lengthAt_agrees {bytes : List UInt8} (hfits : bytes.length < 2 ^ 64) (pos : ℕ) :
    Agrees bytes (lengthAt bytes pos) (readLength (bytes.drop pos)) := by
  unfold lengthAt readLength
  cases get_cases bytes pos with
  | inl hend =>
      rw [hend.1, hend.2, throw_bind]
      exact .error
  | inr hbyte =>
      obtain ⟨byte, hget, hlt, hdrop⟩ := hbyte
      rw [hget, hdrop, pure_bind, add_one hfits hlt, pure_bind, land_low]
      show Agrees bytes _ (if byte.toNat < 128 then _ else _)
      by_cases hshort : byte.toNat < 128
      · rw [if_pos hshort, if_pos (UInt8.lt_iff_toNat_lt.mpr hshort)]
        exact .ok hlt
      · rw [if_neg hshort, if_neg (mt UInt8.lt_iff_toNat_lt.mp hshort)]
        dsimp only
        by_cases hcount : byte.toNat % 128 = 0 ∨ byte.toNat % 128 > 4
        · rw [if_pos hcount, if_pos hcount]
          exact .error
        · rw [if_neg hcount, if_neg hcount]
          apply lengthLoop_agrees hfits (pos + 1) 0 hlt
          have hpow : 256 ^ (byte.toNat % 128) ≤ 256 ^ 4 :=
            Nat.pow_le_pow_right (by norm_num) (by omega)
          rw [Nat.zero_add, one_mul]
          exact hpow.trans (by norm_num)

theorem endOf_eq {bytes : List UInt8} (hfits : bytes.length < 2 ^ 64) (pos length : ℕ) :
    endOf bytes pos length =
      if bytes.length < pos + length then throw "DER length overruns the data"
      else pure (pos + length) := by
  unfold endOf
  by_cases h : bytes.length < pos + length
  · rw [if_neg (by omega), if_pos h]
  · rw [if_pos (by omega), if_neg h]

theorem sliceOf_eq {bytes : List UInt8} {start stop : ℕ} (h : start ≤ stop)
    (hstop : stop ≤ bytes.length) :
    sliceOf bytes start stop = pure ((bytes.drop start).take (stop - start)) := by
  rw [sliceOf, if_pos ⟨h, hstop⟩]

theorem readAt_eq {bytes : List UInt8} (hfits : bytes.length < 2 ^ 64) {turns : ℕ}
    (hturns : bytes.length ≤ turns) : readAt turns bytes = returns (read bytes) := by
  unfold readAt
  cases get_cases bytes 0 with
  | inl hend =>
      have hnil : bytes = [] := hend.2
      rw [hend.1, throw_bind, hnil]
      rfl
  | inr hbyte =>
      obtain ⟨first, hget, hlt, hdrop⟩ := hbyte
      have hbytes : bytes = first :: bytes.drop 1 := hdrop
      have hmore : bytes.length - 1 < turns := by omega
      have htag := tagAt_agrees hfits first 1 hlt hmore
      have hread : read bytes = readTag first (bytes.drop 1) >>= fun r => readLength r.2 >>=
          fun l => if l.2.length < l.1 then invalid "DER length overruns the data"
            else .ok ({ tagClass := first.toNat / 64
                        constructed := first.toNat / 32 % 2 = 1
                        tag := r.1
                        value := l.2.take l.1
                        raw := bytes.take (bytes.length - (l.2.length - l.1)) },
              l.2.drop l.1) := by
        conv_lhs => rw [hbytes, read]
        conv_rhs => rw [hbytes]
        rfl
      rw [hget, pure_bind, hread]
      generalize tagAt turns bytes first 1 = run at htag
      generalize readTag first (bytes.drop 1) = result at htag
      cases htag with
      | error => rfl
      | @ok tag pos hpos =>
          have hlength := lengthAt_agrees hfits pos
          rw [pure_bind]
          show (lengthAt bytes pos >>= _) = returns (readLength (bytes.drop pos) >>= _)
          generalize lengthAt bytes pos = run at hlength
          generalize readLength (bytes.drop pos) = result at hlength
          cases hlength with
          | error => rfl
          | @ok length pos hpos =>
              have hleft : (bytes.drop pos).length = bytes.length - pos := List.length_drop
              rw [pure_bind]
              dsimp only
              rw [endOf_eq hfits]
              show _ = returns (if (bytes.drop pos).length < length then _ else _)
              rw [hleft]
              by_cases hover : bytes.length < pos + length
              · rw [if_pos hover, if_pos (by omega)]
                rfl
              · have hraw : bytes.length - (bytes.length - pos - length) = pos + length := by
                  omega
                rw [if_neg hover, if_neg (by omega), pure_bind,
                  sliceOf_eq (Nat.le_add_right pos length) (by omega), pure_bind,
                  sliceOf_eq (Nat.zero_le _) (by omega), pure_bind,
                  sliceOf_eq (by omega) le_rfl, pure_bind, hraw, Nat.add_sub_cancel_left,
                  List.drop_zero, Nat.sub_zero, ← List.length_drop, List.take_length,
                  List.drop_drop]
                have hconstructed : decide (first &&& 0x20 ≠ 0) =
                    decide (first.toNat / 32 % 2 = 1) :=
                  decide_eq_decide.mpr (land_constructed first)
                have hclass : (first >>> 6).toNat = first.toNat / 64 := by
                  rw [UInt8.toNat_shiftRight]
                  exact Nat.shiftRight_eq_div_pow _ 6
                rw [hconstructed, hclass]
                rfl

theorem childrenLoop_eq {bytes : List UInt8} (hfits : bytes.length < 2 ^ 64) {turns : ℕ}
    (hturns : bytes.length < turns) : childrenLoop turns bytes = returns (readAll bytes) := by
  induction turns generalizing bytes with
  | zero => omega
  | succ turns ih =>
      rw [childrenLoop, readAll]
      cases bytes with
      | nil => rfl
      | cons byte bytes =>
          rw [if_neg (by simp), if_neg (by simp), readAt_eq hfits hturns.le]
          cases h : read (byte :: bytes) with
          | error why => rfl
          | ok found =>
              have hshorter := read_shorter h
              show (childrenLoop turns found.2 >>= _) = returns (_ <$> readAll found.2)
              rw [ih (by omega) (by omega)]
              cases readAll found.2 with
              | error why => rfl
              | ok out => rfl

/-! ### What is read is a partition -/

theorem highTag_suffix {tag tag' : ℕ} {bytes rest : List UInt8}
    (h : highTag tag bytes = .ok (tag', rest)) : rest <:+ bytes := by
  induction bytes generalizing tag with
  | nil => cases h
  | cons byte bytes ih =>
      rw [highTag] at h
      split at h
      next => cases h
      next =>
        dsimp only at h
        split at h
        next =>
          cases h
          exact List.suffix_cons byte rest
        next => exact (ih h).trans (List.suffix_cons byte bytes)

theorem highTag_fits {tag tag' : ℕ} {bytes rest : List UInt8}
    (h : highTag tag bytes = .ok (tag', rest)) : tag' < 2 ^ 32 := by
  induction bytes generalizing tag with
  | nil => cases h
  | cons byte bytes ih =>
      rw [highTag] at h
      split at h
      next => cases h
      next hlimit =>
        dsimp only at h
        split at h
        next =>
          cases h
          norm_num at hlimit ⊢
          omega
        next => exact ih h

theorem bigEndian_suffix {number number' count : ℕ} {bytes rest : List UInt8}
    (h : bigEndian number count bytes = .ok (number', rest)) : rest <:+ bytes := by
  induction count generalizing number bytes with
  | zero =>
      rw [bigEndian] at h
      cases h
      exact List.suffix_refl _
  | succ count ih =>
      cases bytes with
      | nil => cases h
      | cons byte bytes =>
          rw [bigEndian] at h
          exact (ih h).trans (List.suffix_cons byte bytes)

theorem readTag_suffix {first : UInt8} {tag : ℕ} {bytes rest : List UInt8}
    (h : readTag first bytes = .ok (tag, rest)) : rest <:+ bytes ∧ tag < 2 ^ 32 := by
  unfold readTag at h
  split at h
  next => exact ⟨highTag_suffix h, highTag_fits h⟩
  next =>
    cases h
    exact ⟨List.suffix_refl _, by omega⟩

theorem readLength_suffix {length : ℕ} {bytes rest : List UInt8}
    (h : readLength bytes = .ok (length, rest)) : rest <:+ bytes := by
  cases bytes with
  | nil => cases h
  | cons byte bytes =>
      change (if byte.toNat < 128 then _ else _) = _ at h
      split at h
      next =>
        cases h
        exact List.suffix_cons byte rest
      next =>
        split at h
        next => cases h
        next => exact (bigEndian_suffix h).trans (List.suffix_cons byte bytes)

/-- A value's encoding is a header of two bytes at least and the contents, and stands in front
of what is read next. -/
def Tlv.Stands (tlv : Tlv) (bytes rest : List UInt8) : Prop :=
  tlv.raw ++ rest = bytes ∧ tlv.value <:+ tlv.raw ∧ tlv.value.length + 2 ≤ tlv.raw.length ∧
    tlv.tag < 2 ^ 32

theorem read_stands {bytes rest : List UInt8} {tlv : Tlv} (h : read bytes = .ok (tlv, rest)) :
    tlv.Stands bytes rest := by
  cases bytes with
  | nil => cases h
  | cons first bytes =>
      change (readTag first bytes >>= _) = _ at h
      cases htag : readTag first bytes with
      | error why =>
          rw [htag] at h
          cases h
      | ok found =>
          obtain ⟨tag, afterTag⟩ := found
          rw [htag] at h
          change (readLength afterTag >>= _) = _ at h
          cases hlength : readLength afterTag with
          | error why =>
              rw [hlength] at h
              cases h
          | ok found =>
              obtain ⟨length, afterLength⟩ := found
              rw [hlength] at h
              change (if afterLength.length < length then _ else _) = _ at h
              split at h
              next => cases h
              next hfits =>
                cases h
                have htagLeft := readTag_suffix htag
                have hshort := readLength_shorter hlength
                have htagShort := readTag_shorter htag
                have hsuffix := ((readLength_suffix hlength).trans htagLeft.1).trans
                  (List.suffix_cons first bytes)
                obtain ⟨header, hheader⟩ := hsuffix
                have hlen : (first :: bytes).length = header.length + afterLength.length := by
                  rw [← hheader, List.length_append]
                have htwo : 2 ≤ header.length := by
                  rw [List.length_cons] at hlen
                  omega
                have hraw : (first :: bytes).take
                    ((first :: bytes).length - (afterLength.length - length)) =
                      header ++ afterLength.take length := by
                  have hindex : (first :: bytes).length - (afterLength.length - length) =
                      header.length + length := by omega
                  rw [hindex, ← hheader, List.take_length_add_append]
                have htake : (afterLength.take length).length = length := by
                  rw [List.length_take]
                  omega
                refine ⟨?_, ?_, ?_, htagLeft.2⟩
                · dsimp only
                  rw [hraw, List.append_assoc, List.take_append_drop, hheader]
                · dsimp only
                  rw [hraw]
                  exact List.suffix_append header _
                · dsimp only
                  rw [hraw, List.length_append]
                  omega

theorem readAll_stands {bytes : List UInt8} {values : List Tlv}
    (h : readAll bytes = .ok values) :
    values.flatMap Tlv.raw = bytes ∧
      ∀ tlv ∈ values, tlv.value <:+ tlv.raw ∧ tlv.value.length + 2 ≤ tlv.raw.length ∧
        tlv.tag < 2 ^ 32 := by
  induction bytes using readAll.induct generalizing values with
  | case1 bytes hempty =>
      rw [readAll, if_pos hempty] at h
      cases h
      exact ⟨(List.isEmpty_iff.mp hempty).symm, by simp⟩
  | case2 bytes hempty why hread =>
      rw [readAll, if_neg hempty] at h
      split at h
      next => cases h
      next tlv rest hread' => rw [hread] at hread'; cases hread'
  | case3 bytes hempty tlv rest hread ih =>
      have hstands := read_stands hread
      rw [readAll, if_neg hempty] at h
      split at h
      next why hread' => rw [hread] at hread'; cases hread'
      next tlv' rest' hread' =>
        rw [hread] at hread'
        cases hread'
        cases hrest : readAll rest with
        | error why =>
            rw [hrest] at h
            cases h
        | ok values' =>
            rw [hrest] at h
            cases h
            have hvalues := ih hrest
            refine ⟨?_, ?_⟩
            · rw [List.flatMap_cons, hvalues.1, hstands.1]
            · intro t ht
              cases List.mem_cons.mp ht with
              | inl heq => exact heq ▸ hstands.2
              | inr hmem => exact hvalues.2 t hmem

inductive ReadFrom (bytes : List UInt8) : Tlv → Prop
  | front {tlv : Tlv} {rest : List UInt8} (h : read bytes = .ok (tlv, rest)) : ReadFrom bytes tlv
  | child {tlv inner : Tlv} {values : List Tlv} (h : ReadFrom bytes tlv)
      (hvalues : tlv.children = .ok values) (hinner : inner ∈ values) : ReadFrom bytes inner

theorem children_stands {tlv : Tlv} {values : List Tlv} (h : tlv.children = .ok values) :
    values.flatMap Tlv.raw = tlv.value ∧
      ∀ inner ∈ values, inner.value <:+ inner.raw ∧
        inner.value.length + 2 ≤ inner.raw.length ∧ inner.tag < 2 ^ 32 := by
  unfold Tlv.children at h
  split at h
  next => cases h
  next => exact readAll_stands h

theorem ReadFrom.stands {bytes : List UInt8} {tlv : Tlv} (h : ReadFrom bytes tlv) :
    tlv.raw <:+: bytes ∧ tlv.value <:+ tlv.raw ∧ tlv.value.length + 2 ≤ tlv.raw.length ∧
      tlv.tag < 2 ^ 32 := by
  induction h with
  | front h =>
      have hstands := read_stands h
      exact ⟨⟨[], _, hstands.1⟩, hstands.2⟩
  | @child tlv inner values _ hvalues hinner ih =>
      have hchildren := children_stands hvalues
      have hraw : inner.raw <:+: tlv.value := by
        rw [← hchildren.1]
        obtain ⟨before, after, rfl⟩ := List.append_of_mem hinner
        exact ⟨before.flatMap Tlv.raw, after.flatMap Tlv.raw, by simp⟩
      exact ⟨(hraw.trans ih.2.1.isInfix).trans ih.1, hchildren.2 inner hinner⟩

/-- DER reading, on any bytes in memory: a value is read or refused, without overflow or an
access out of range and in as many turns as there are bytes, and stands in front of what is left;
and so of every value inside it, at any depth, the values in which stand one after another. -/
theorem reading_partitions (s : Slice) :
    (∀ turns, s.bytes.length ≤ turns → readAt turns s.bytes = returns (read s.bytes)) ∧
      (∀ tlv rest, read s.bytes = .ok (tlv, rest) →
        tlv.raw ++ rest = s.bytes ∧ tlv.value <:+ tlv.raw) ∧
      ∀ tlv, ReadFrom s.bytes tlv →
        tlv.raw <:+: s.bytes ∧ tlv.value <:+ tlv.raw ∧ 2 ≤ tlv.raw.length ∧
        (∀ turns, tlv.value.length < turns → childrenAt turns tlv = returns tlv.children) ∧
        ∀ values, tlv.children = .ok values →
          values.flatMap Tlv.raw = tlv.value ∧ ∀ inner ∈ values, 2 ≤ inner.raw.length := by
  refine ⟨fun turns h => readAt_eq s.fits h, ?_, ?_⟩
  · intro tlv rest h
    have hstands := read_stands h
    exact ⟨hstands.1, hstands.2.1⟩
  · intro tlv h
    have hstands := h.stands
    have hfits : tlv.value.length < 2 ^ 64 := by
      have hlen := hstands.1.length_le
      have hall := s.fits
      omega
    refine ⟨hstands.1, hstands.2.1, by omega, ?_, ?_⟩
    · intro turns hturns
      unfold childrenAt Tlv.children
      split
      next => rfl
      next => exact childrenLoop_eq hfits hturns
    · intro values hvalues
      have hchildren := children_stands hvalues
      refine ⟨hchildren.1, ?_⟩
      intro inner hinner
      have hinner := (hchildren.2 inner hinner).2.1
      omega

end Eunha.Der
