import Mathlib.Algebra.Group.Int.Defs
import Mathlib.Data.List.DropRight
import Mathlib.Data.Nat.Digits.Lemmas
import PapyrusBackend.Coercion

namespace PapyrusBackend

namespace Text

def whiteSpace : List Char :=
  ['\t', '\n', '\x0b', '\x0c', '\r', ' ', '\u0085', '\u00a0', '\u1680', '\u2000', '\u2001',
    '\u2002', '\u2003', '\u2004', '\u2005', '\u2006', '\u2007', '\u2008', '\u2009', '\u200a',
    '\u2028', '\u2029', '\u202f', '\u205f', '\u3000']

/-- `word` is what remains of `cs` without the white space at both ends. -/
structure Trims (cs word : List Char) : Prop where
  framed : ∃ before after, cs = before ++ word ++ after ∧ before ⊆ whiteSpace ∧ after ⊆ whiteSpace
  head : ∀ c ∈ word.head?, c ∉ whiteSpace
  last : ∀ c ∈ word.getLast?, c ∉ whiteSpace

theorem isBlank_iff {c : Char} : isBlank c = true ↔ c ∈ whiteSpace := by
  constructor
  · simp only [isBlank, whiteSpace, List.mem_cons, List.not_mem_nil, ← Char.toNat_inj,
      Char.reduceToNat, Bool.or_eq_true, Bool.and_eq_true, decide_eq_true_eq, or_false]
    omega
  · intro h
    have hall : whiteSpace.all isBlank = true := by decide
    exact List.all_eq_true.1 hall c h

theorem dropWhile_isBlank_append {before rest : List Char} (hbefore : before ⊆ whiteSpace)
    (hrest : ∀ c ∈ rest.head?, c ∉ whiteSpace) : (before ++ rest).dropWhile isBlank = rest := by
  rw [List.dropWhile_append_of_pos fun c hc => isBlank_iff.2 (hbefore hc)]
  cases rest with
  | nil => rfl
  | cons c rest => exact List.dropWhile_cons_of_neg fun hc => hrest c rfl (isBlank_iff.1 hc)

theorem trims_trimmed (s : String) : Trims s.toList (trimmed s) := by
  have hback : trimmed s ++ (s.toList.dropWhile isBlank).rtakeWhile isBlank =
      s.toList.dropWhile isBlank := List.rdropWhile_append_rtakeWhile
  refine ⟨⟨s.toList.takeWhile isBlank, (s.toList.dropWhile isBlank).rtakeWhile isBlank, ?_,
    fun c hc => isBlank_iff.1 (List.mem_takeWhile_imp hc),
    fun c hc => isBlank_iff.1 (List.mem_rtakeWhile_imp hc)⟩, fun c hc => ?_, fun c hc => ?_⟩
  · rw [List.append_assoc, hback, List.takeWhile_append_dropWhile]
  · have hhead : (s.toList.dropWhile isBlank).head? = some c := by
      rw [← hback, List.head?_append, Option.mem_def.1 hc]
      rfl
    have hnot := List.head?_dropWhile_not isBlank s.toList
    rw [hhead] at hnot
    exact fun hblank => absurd (isBlank_iff.2 hblank) (Bool.eq_false_iff.1 hnot)
  · obtain ⟨hne, rfl⟩ := List.mem_getLast?_eq_getLast hc
    exact fun hblank => List.rdropWhile_last_not isBlank _ hne (isBlank_iff.2 hblank)

theorem Trims.trimmed_eq {s : String} {word : List Char} (h : Trims s.toList word) :
    trimmed s = word := by
  obtain ⟨before, after, hs, hbefore, hafter⟩ := h.framed
  rw [trimmed, hs, List.append_assoc]
  cases word with
  | nil =>
    -- Nothing stops the front from being dropped up to the end.
    have hall : (before ++ ([] ++ after)).dropWhile isBlank = [] :=
      List.dropWhile_eq_nil_iff.2 fun c hc =>
        isBlank_iff.2 (List.append_subset.2 ⟨hbefore, hafter⟩ hc)
    rw [hall]
    rfl
  | cons c word =>
    have hfront : (before ++ (c :: word ++ after)).dropWhile isBlank = c :: word ++ after :=
      dropWhile_isBlank_append hbefore h.head
    have hback :
        (after.reverse ++ (c :: word).reverse).dropWhile isBlank = (c :: word).reverse := by
      refine dropWhile_isBlank_append (fun c hc => hafter (List.mem_reverse.1 hc)) ?_
      rw [List.head?_reverse]
      exact h.last
    rw [hfront, List.reverse_append, hback, List.reverse_reverse]

theorem trims_self {cs : List Char} (h : ∀ c ∈ cs, c ∉ whiteSpace) : Trims cs cs :=
  ⟨⟨[], [], by simp, List.nil_subset _, List.nil_subset _⟩,
    fun c hc => h c (List.mem_of_mem_head? hc), fun c hc => h c (List.mem_of_mem_getLast? hc)⟩

end Text

namespace Number

/-- Decimal digits, the most significant one first, and the number that they denote. -/
def DecimalDigits (cs : List Char) (n : Nat) : Prop :=
  ∃ digits : List Nat, digits ≠ [] ∧ (∀ d ∈ digits, d < 10) ∧ cs = digits.map Nat.digitChar ∧
    n = Nat.ofDigits 10 digits.reverse

inductive Numeral : List Char → Int → Prop
  | unsigned {cs : List Char} {n : Nat} (h : DecimalDigits cs n) : Numeral cs n
  | plus {cs : List Char} {n : Nat} (h : DecimalDigits cs n) : Numeral ('+' :: cs) n
  | minus {cs : List Char} {n : Nat} (h : DecimalDigits cs n) : Numeral ('-' :: cs) (-n)

/-- The text is a numeral for `i`, white space around it apart. -/
def Spells (s : String) (i : Int) : Prop := ∃ word, Text.Trims s.toList word ∧ Numeral word i

variable {cs : List Char} {n : Nat} {i : Int}

theorem ofDigitChars_map_digitChar {digits : List Nat} (h : ∀ d ∈ digits, d < 10) :
    Nat.ofDigitChars 10 (digits.map Nat.digitChar) 0 = Nat.ofDigits 10 digits.reverse := by
  induction digits with
  | nil => rfl
  | cons d digits ih =>
    rw [List.forall_mem_cons] at h
    rw [List.map_cons, Nat.ofDigitChars_cons_digitChar_of_lt_ten h.1,
      Nat.ofDigitChars_eq_ofDigitChars_zero, ih h.2, List.length_map, Nat.ofDigits_reverse_cons,
      Nat.mul_zero, Nat.zero_add, Nat.add_comm]

theorem exists_digit {c : Char} (h : c.isDigit = true) : ∃ d < 10, c = Nat.digitChar d := by
  obtain ⟨hlow, hhigh⟩ := Char.isDigit_iff_toNat.1 h
  replace hlow : 48 ≤ c.toNat := hlow
  replace hhigh : c.toNat ≤ 57 := hhigh
  have hd : c.toNat - 48 < 10 := by omega
  refine ⟨c.toNat - 48, hd, ?_⟩
  rw [← Char.toNat_inj, Nat.toNat_digitChar_of_lt_ten hd]
  omega

theorem exists_digits (h : ∀ c ∈ cs, c.isDigit = true) :
    ∃ digits : List Nat, (∀ d ∈ digits, d < 10) ∧ cs = digits.map Nat.digitChar := by
  induction cs with
  | nil => exact ⟨[], by simp, rfl⟩
  | cons c cs ih =>
    rw [List.forall_mem_cons] at h
    obtain ⟨d, hd, rfl⟩ := exists_digit h.1
    obtain ⟨digits, hlt, rfl⟩ := ih h.2
    exact ⟨d :: digits, List.forall_mem_cons.2 ⟨hd, hlt⟩, rfl⟩

/-- The digits are told by their characters, and their number by running through them. -/
theorem decimalDigits_iff : DecimalDigits cs n ↔
    cs ≠ [] ∧ (∀ c ∈ cs, c.isDigit = true) ∧ Nat.ofDigitChars 10 cs 0 = n := by
  constructor
  · rintro ⟨digits, hne, hlt, rfl, rfl⟩
    refine ⟨fun h => hne (List.map_eq_nil_iff.1 h), fun c hc => ?_, ofDigitChars_map_digitChar hlt⟩
    obtain ⟨d, hd, rfl⟩ := List.mem_map.1 hc
    simpa [Nat.isDigit_digitChar] using hlt d hd
  · rintro ⟨hne, hdigit, rfl⟩
    obtain ⟨digits, hlt, rfl⟩ := exists_digits hdigit
    exact ⟨digits, fun h => hne (List.map_eq_nil_iff.2 h), hlt, rfl, ofDigitChars_map_digitChar hlt⟩

theorem DecimalDigits.isDigit (h : DecimalDigits cs n) {c : Char} (hc : c ∈ cs) :
    c.isDigit = true :=
  (decimalDigits_iff.1 h).2.1 c hc

theorem decimalDigits_toDigits (n : Nat) : DecimalDigits (Nat.toDigits 10 n) n :=
  decimalDigits_iff.2 ⟨Nat.toDigits_ne_nil,
    fun _ => Nat.isDigit_of_mem_toDigits (by decide) (by decide), Nat.ofDigitChars_ten_toDigits⟩

theorem natural?_eq_some_iff : natural? cs = some n ↔ DecimalDigits cs n := by
  rw [decimalDigits_iff, natural?, Nat.ofDigitChars_eq_foldl, ← List.all_eq_true]
  cases cs.all Char.isDigit with
  | false => simp
  | true => cases cs <;> simp

theorem Numeral.integer?_eq (h : Numeral cs i) : integer? cs = some i := by
  cases h with
  | plus h => simp [integer?, natural?_eq_some_iff.2 h]
  | minus h => simp [integer?, natural?_eq_some_iff.2 h]
  | unsigned h =>
    -- Digits do not start with a sign, so that they are read as they stand.
    rw [integer?, natural?_eq_some_iff.2 h]
    · rfl
    · rintro rest rfl
      exact absurd (h.isDigit List.mem_cons_self) (by decide)
    · rintro rest rfl
      exact absurd (h.isDigit List.mem_cons_self) (by decide)

theorem numeral_of_integer? (h : integer? cs = some i) : Numeral cs i := by
  unfold integer? at h
  split at h
  all_goals
    simp only [Option.map_bind, Option.bind_eq_bind, Option.bind_eq_some_iff] at h
    obtain ⟨n, hn, hi⟩ := h
    cases hi
    rw [natural?_eq_some_iff] at hn
  · exact .minus hn
  · exact .plus hn
  · exact .unsigned hn

theorem spells_iff {s : String} : Spells s i ↔ integer? (Text.trimmed s) = some i := by
  constructor
  · rintro ⟨word, htrims, hnumeral⟩
    rw [htrims.trimmed_eq, hnumeral.integer?_eq]
  · intro h
    exact ⟨_, Text.trims_trimmed s, numeral_of_integer? h⟩

/-- Reading finds the integers that a text spells, as far as they fit into 32 bits. -/
theorem readInt32?_eq_some_iff {s : String} {v : Int32} :
    readInt32? s = some v ↔ Spells s v.toInt := by
  rw [spells_iff, readInt32?]
  constructor
  · intro h
    split at h
    · next i hi =>
      split at h
      · next hrange =>
        cases h
        rw [hi, Int32.toInt_ofInt_of_le hrange.1 (Int.lt_of_le_sub_one hrange.2)]
      · cases h
    · cases h
  · intro h
    simp only [h, v.minValue_le_toInt, v.toInt_le, and_self, if_true, Int32.ofInt_toInt]

theorem numeral_toString (i : Int) : Numeral (toString i).toList i := by
  rw [Int.toString_eq_repr, Int.repr_eq_if]
  split
  · next hi =>
    rw [Nat.toList_repr]
    simpa [Int.toNat_of_nonneg hi] using Numeral.unsigned (decimalDigits_toDigits i.toNat)
  · next hi =>
    rw [String.toList_append, Nat.toList_repr]
    have h := Numeral.minus (decimalDigits_toDigits (-i).toNat)
    rwa [Int.toNat_of_nonneg (by omega), Int.neg_neg] at h

theorem DecimalDigits.not_whiteSpace (h : DecimalDigits cs n) :
    ∀ c ∈ cs, c ∉ Text.whiteSpace := by
  intro c hc hspace
  have hnone : Text.whiteSpace.any Char.isDigit = false := by decide
  exact List.any_eq_false.1 hnone c hspace (h.isDigit hc)

theorem Numeral.not_whiteSpace (h : Numeral cs i) : ∀ c ∈ cs, c ∉ Text.whiteSpace := by
  cases h with
  | unsigned h => exact h.not_whiteSpace
  | plus h | minus h => exact List.forall_mem_cons.2 ⟨by decide, h.not_whiteSpace⟩

theorem spells_toString (i : Int) : Spells (toString i) i :=
  ⟨_, Text.trims_self (numeral_toString i).not_whiteSpace, numeral_toString i⟩

end Number

namespace Coercion

theorem toInt_string_eq_iff {s : String} {v : Int32} :
    toInt (.string s) = .int v ↔ Number.Spells s v.toInt := by
  rw [← Number.readInt32?_eq_some_iff, toInt]
  cases Number.readInt32? s <;> simp

theorem toInt_string_cases (s : String) :
    (∃ v, toInt (.string s) = .int v) ∨ toInt (.string s) = .string s := by
  rw [toInt]
  cases Number.readInt32? s with
  | none => exact .inr rfl
  | some v => exact .inl ⟨v, rfl⟩

end Coercion

namespace Value

variable {intName textName : String}

theorem coerce_of_sameName {a b : String} (h : Text.sameName a b = true) (v : Value) :
    v.coerce a = v.coerce b := by
  have hlower : a.toLower = b.toLower := beq_iff_eq.1 h
  simp only [coerce, hlower]

theorem coerce_int (v : Value) : v.coerce "Int" = Coercion.toInt v := by
  have hlower : "Int".toLower = "int" := by simp [← String.toList_inj, Text.toList_toLower]
  simp [coerce, hlower]

theorem coerce_string (v : Value) : v.coerce "String" = Coercion.toText v := by
  have hlower : "String".toLower = "string" := by simp [← String.toList_inj, Text.toList_toLower]
  simp [coerce, hlower]

/-- An integer carried over to a text comes back as it was. A text becomes the integer that it
spells if that fits into 32 bits, and is left as it stands otherwise. -/
theorem coerce_int_text_exact (hint : Text.sameName intName "Int" = true)
    (htext : Text.sameName textName "String" = true) :
    (∀ v : Int32, ∃ s, (Value.int v).coerce textName = .string s ∧
      (Value.string s).coerce intName = .int v) ∧
    ∀ s : String,
      (∀ i : Int, (∃ v : Int32, v.toInt = i ∧ (Value.string s).coerce intName = .int v) ↔
        Number.Spells s i ∧ -2 ^ 31 ≤ i ∧ i < 2 ^ 31) ∧
      ((¬∃ i, Number.Spells s i ∧ -2 ^ 31 ≤ i ∧ i < 2 ^ 31) →
        (Value.string s).coerce intName = .string s) := by
  simp only [coerce_of_sameName hint, coerce_of_sameName htext, coerce_int, coerce_string,
    Coercion.toInt_string_eq_iff]
  refine ⟨fun v => ⟨_, rfl, Number.spells_toString v.toInt⟩, fun s => ⟨fun i => ⟨?_, ?_⟩, ?_⟩⟩
  · rintro ⟨v, rfl, hspells⟩
    exact ⟨hspells, v.le_toInt, v.toInt_lt⟩
  · rintro ⟨hspells, hlow, hhigh⟩
    have hfits : (Int32.ofInt i).toInt = i := Int32.toInt_ofInt_of_le hlow hhigh
    exact ⟨.ofInt i, hfits, by rwa [hfits]⟩
  · intro hnone
    obtain ⟨v, hv⟩ | hsame := Coercion.toInt_string_cases s
    · exact absurd ⟨v.toInt, Coercion.toInt_string_eq_iff.1 hv, v.le_toInt, v.toInt_lt⟩ hnone
    · exact hsame

theorem coerce_int_text_mixedCase :
    Text.sameName "iNT" "Int" = true ∧ Text.sameName "STRing" "String" = true ∧
    (∃ s, (Value.int Int32.minValue).coerce "STRing" = .string s ∧
      (Value.string s).coerce "iNT" = .int Int32.minValue) ∧
    (∃ v : Int32, v.toInt = -7 ∧ (Value.string "\t-007 ").coerce "iNT" = .int v) ∧
    (Value.string " 2147483648").coerce "iNT" = .string " 2147483648" := by
  have hint : Text.sameName "iNT" "Int" = true := Text.sameName_iff.2 (by simp)
  have htext : Text.sameName "STRing" "String" = true := Text.sameName_iff.2 (by simp)
  obtain ⟨hback, hread⟩ := coerce_int_text_exact hint htext
  refine ⟨hint, htext, hback _, ((hread _).1 (-7)).2 ⟨?_, by decide, by decide⟩, (hread _).2 ?_⟩
  · exact Number.spells_iff.2 (by decide)
  · rintro ⟨i, hspells, -, hhigh⟩
    have hlarge : Number.Spells " 2147483648" 2147483648 := Number.spells_iff.2 (by decide)
    rw [Number.spells_iff] at hspells hlarge
    cases hspells.symm.trans hlarge
    exact absurd hhigh (by decide)

end Value

end PapyrusBackend
