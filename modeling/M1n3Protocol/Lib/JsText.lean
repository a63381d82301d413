/-
Strings of JavaScript, and the integers `BigInt` reads in them.

# Characters

As in `Js` a string is its characters. One above U+FFFF is two code units
to the language, none of which is a digit, a blank or any other character
compared with here.

# Integer literals

Between blanks there may be nothing, a row of decimal digits with or
without a sign, or a row of digits after the prefix of their radix. A
prefix takes no sign. `IntegerLiteral` is that grammar, `integerLiteral`
its value.
-/
import M1n3Protocol.Lib.Decimal
import M1n3Protocol.Lib.Js

namespace Js

open Decimal

-- ================================================================= strings

def trim (s : Text) : Text := (s.dropWhile isSpace).rdropWhile isSpace

/-- `s.split(sep)` -/
def split (sep : Char) : Text → List Text
  | [] => [[]]
  | c :: s =>
      if c = sep then [] :: split sep s
      else (split sep s).modifyHead (c :: ·)

/-- `s.padStart(n, c)` -/
def padStart (s : Text) (n : ℕ) (c : Char) : Text := List.leftpad n c s

/-- `s.padEnd(n, c)` -/
def padEnd (s : Text) (n : ℕ) (c : Char) : Text := List.rightpad n c s

/-- `s.replace(/^0+(?=\d)/, "")` -/
def dropLeadingZeros : Text → Text
  | [] => []
  | c :: s =>
      if c = '0' ∧ s.head?.any Char.isDigit then dropLeadingZeros s
      else c :: s

/-- `s.replace(/0+$/, "")` -/
def dropTrailingZeros (s : Text) : Text := s.rdropWhile (· == '0')

/-- `n.toString()` of a `bigint`. -/
def bigIntText (n : ℤ) : Text :=
  if n < 0 then '-' :: Nat.toDigits 10 n.natAbs
  else Nat.toDigits 10 n.natAbs

def Blank (s : Text) : Prop := ∀ c ∈ s, isSpace c

/-- Neither end is a blank. -/
structure Tight (s : Text) : Prop where
  head : ∀ c ∈ s.head?, isSpace c = false
  getLast : ∀ c ∈ s.getLast?, isSpace c = false

theorem Blank.nil : Blank [] := fun _ hc => absurd hc List.not_mem_nil

theorem split_of_notMem {sep : Char} {s : Text} (h : sep ∉ s) :
    split sep s = [s] := by
  induction s with
  | nil => rfl
  | cons c s ih =>
    rw [List.mem_cons, not_or] at h
    rw [split, if_neg (Ne.symm h.1), ih h.2]
    rfl

theorem split_append {sep : Char} {s : Text} (h : sep ∉ s) (rest : Text) :
    split sep (s ++ sep :: rest) = s :: split sep rest := by
  induction s with
  | nil => rw [List.nil_append, split, if_pos rfl]
  | cons c s ih =>
    rw [List.mem_cons, not_or] at h
    rw [List.cons_append, split, if_neg (Ne.symm h.1), ih h.2]
    rfl

theorem trim_around {before s after : Text} (hbefore : Blank before)
    (hs : Tight s) (hafter : Blank after) :
    trim (before ++ (s ++ after)) = s := by
  have hdrop : (s ++ after).dropWhile isSpace
      = if s = [] then [] else s ++ after := by
    cases s with
    | nil => exact List.dropWhile_eq_nil_iff.mpr hafter
    | cons c s =>
      rw [if_neg (List.cons_ne_nil c s), List.cons_append,
        List.dropWhile_cons_of_neg (by rw [hs.head c rfl]; decide)]
  have hlast : ∀ hne : s ≠ [], ¬ isSpace (s.getLast hne) = true := by
    intro hne
    rw [hs.getLast _ (List.getLast?_eq_some_getLast hne)]
    decide
  rw [trim, List.dropWhile_append_of_pos hbefore, hdrop]
  split
  · rename_i hnil
    rw [hnil, List.rdropWhile_nil]
  · rw [List.rdropWhile, List.reverse_append,
      List.dropWhile_append_of_pos fun c hc =>
        hafter c (List.mem_reverse.mp hc)]
    exact List.rdropWhile_eq_self_iff.mpr hlast

theorem trim_eq_self {s : Text} (hs : Tight s) : trim s = s := by
  have h := trim_around Blank.nil hs Blank.nil
  rwa [List.nil_append, List.append_nil] at h

/-- What is trimmed are blanks. -/
theorem exists_around (s : Text) :
    ∃ before after, s = before ++ (trim s ++ after) ∧ Blank before ∧
      Blank after := by
  refine ⟨s.takeWhile isSpace, (s.dropWhile isSpace).rtakeWhile isSpace, ?_,
    fun c hc => List.mem_takeWhile_imp hc,
    fun c hc => List.mem_rtakeWhile_imp hc⟩
  rw [trim, List.rdropWhile_append_rtakeWhile, List.takeWhile_append_dropWhile]

-- ================================================================== digits

theorem hexValue_of_isDigit {c : Char} (h : c.isDigit) :
    Hex.value c = some (c.toNat - '0'.toNat) := by
  have hbounds := Bool.and_eq_true_iff.mp h
  exact if_pos ⟨of_decide_eq_true hbounds.1, of_decide_eq_true hbounds.2⟩

theorem isSpace_of_isDigit {c : Char} (h : c.isDigit) :
    isSpace c = false :=
  (digit_plain (hexValue_of_isDigit h)).1

theorem Blank.not_isDigit {s : Text} (h : Blank s) :
    ∀ c ∈ s, c.isDigit = false := by
  intro c hc
  by_contra hdigit
  rw [Bool.not_eq_false] at hdigit
  exact absurd (h c hc) (by rw [isSpace_of_isDigit hdigit]; decide)

theorem Blank.no_point {s : Text} (h : Blank s) : '.' ∉ s := fun hin =>
  absurd (h '.' hin) (by decide)

theorem dropLeadingZeros_of_ne {c : Char} (h : c ≠ '0') (s : Text) :
    dropLeadingZeros (c :: s) = c :: s := by
  rw [dropLeadingZeros, if_neg fun hzero => h hzero.1]

/-- Of a row of digits, one at least stays. -/
theorem dropLeadingZeros_digits {ds rest : Text} (hds : Digits ds)
    (hne : ds ≠ []) (hrest : ∀ c ∈ rest.head?, c.isDigit = false) :
    ∃ es, dropLeadingZeros (ds ++ rest) = es ++ rest ∧ Digits es ∧
      es ≠ [] ∧ value es = value ds := by
  induction ds with
  | nil => exact absurd rfl hne
  | cons c ds ih =>
    have htail : Digits ds := fun d hd => hds d (List.mem_cons_of_mem c hd)
    cases ds with
    | nil =>
      refine ⟨[c], ?_, hds, List.cons_ne_nil c [], rfl⟩
      have hno : rest.head?.any Char.isDigit = false := by
        cases rest with
        | nil => rfl
        | cons d rest => exact hrest d rfl
      rw [List.singleton_append, dropLeadingZeros, hno,
        if_neg fun h => Bool.false_ne_true h.2]
    | cons d ds =>
      by_cases hzero : c = '0'
      · obtain ⟨es, hdrop, hes, hesne, hvalue⟩ :=
          ih htail (List.cons_ne_nil d ds)
        refine ⟨es, ?_, hes, hesne, ?_⟩
        · rw [← hdrop, List.cons_append, List.cons_append, dropLeadingZeros,
            if_pos ⟨hzero, htail d List.mem_cons_self⟩]
        · rw [hvalue, hzero, ← List.singleton_append]
          exact (value_zeros_append 1 (d :: ds)).symm
      · exact ⟨c :: d :: ds, dropLeadingZeros_of_ne hzero _, hds,
          List.cons_ne_nil c _, rfl⟩

/-- Behind a blank no zero is dropped. -/
theorem dropLeadingZeros_around {before ds rest : Text}
    (hbefore : Blank before) (hds : Digits ds) (hne : ds ≠ [])
    (hrest : ∀ c ∈ rest.head?, c.isDigit = false) :
    ∃ es, dropLeadingZeros (before ++ (ds ++ rest)) = before ++ (es ++ rest) ∧
      Digits es ∧ es ≠ [] ∧ value es = value ds := by
  cases before with
  | nil => exact dropLeadingZeros_digits hds hne hrest
  | cons c before =>
    refine ⟨ds, ?_, hds, hne, rfl⟩
    apply dropLeadingZeros_of_ne
    rintro rfl
    exact absurd (hbefore '0' List.mem_cons_self) (by decide)

-- ======================================================== integer literals

def radixDigit (radix : ℕ) (c : Char) : Option ℕ :=
  (Hex.value c).filter fun v => decide (v < radix)

def radixValue (radix : ℕ) (ds : Text) : Option ℕ :=
  if ds = [] then none
  else ds.foldlM (fun n c => (radixDigit radix c).map (radix * n + ·)) 0

/-- The radix a letter behind a zero stands for. -/
def radixLetter (c : Char) : Option ℕ :=
  if c = 'x' ∨ c = 'X' then some 16
  else if c = 'o' ∨ c = 'O' then some 8
  else if c = 'b' ∨ c = 'B' then some 2
  else none

def radixPrefix : Text → Option (ℕ × Text)
  | [] => none
  | [_] => none
  | z :: c :: ds =>
      if z = '0' then (radixLetter c).map fun radix => (radix, ds) else none

/-- The value of a literal without blanks around it. -/
def integerLiteral (s : Text) : Option ℤ :=
  if s = [] then some 0
  else
    match radixPrefix s with
    | some (radix, ds) => (radixValue radix ds).map fun n : ℕ => (n : ℤ)
    | none =>
        let (negative, ds) := stripSign s
        (radixValue 10 ds).map fun n : ℕ => if negative then -(n : ℤ) else n

/-- `BigInt(s)`, where `none` is a `SyntaxError`. -/
def bigInt (s : Text) : Option ℤ := integerLiteral (trim s)

def Numeral (radix : ℕ) (ds : Text) : Prop :=
  ds ≠ [] ∧ ∀ c ∈ ds, (radixDigit radix c).isSome

inductive IntegerLiteral : Text → Prop
  | empty : IntegerLiteral []
  | decimal {ds : Text} : Numeral 10 ds → IntegerLiteral ds
  | signed {c : Char} {ds : Text} : c ∈ ['+', '-'] → Numeral 10 ds →
      IntegerLiteral (c :: ds)
  | prefixed {radix : ℕ} {c : Char} {ds : Text} :
      radixLetter c = some radix → Numeral radix ds →
      IntegerLiteral ('0' :: c :: ds)

theorem foldlM_isSome_iff {radix : ℕ} {ds : Text} (n : ℕ) :
    (ds.foldlM (fun n c => (radixDigit radix c).map (radix * n + ·))
      n).isSome ↔ ∀ c ∈ ds, (radixDigit radix c).isSome := by
  induction ds generalizing n with
  | nil => exact iff_of_true rfl fun c hc => absurd hc List.not_mem_nil
  | cons c ds ih =>
    rw [List.foldlM_cons, List.forall_mem_cons]
    cases hdigit : radixDigit radix c with
    | none => exact iff_of_false Bool.false_ne_true fun h =>
        Bool.false_ne_true h.1
    | some v =>
      rw [Option.map_some, Option.bind_eq_bind, Option.bind_some, ih]
      exact (and_iff_right rfl).symm

theorem radixValue_isSome_iff {radix : ℕ} {ds : Text} :
    (radixValue radix ds).isSome ↔ Numeral radix ds := by
  unfold radixValue Numeral
  split
  · rename_i hnil
    exact iff_of_false Bool.false_ne_true fun h => h.1 hnil
  · rename_i hne
    rw [foldlM_isSome_iff]
    exact (and_iff_right hne).symm

theorem radixDigit_of_isDigit {c : Char} (h : c.isDigit) :
    radixDigit 10 c = some (c.toNat - '0'.toNat) := by
  have hle : c.toNat ≤ 57 :=
    UInt32.le_iff_toNat_le.mp (of_decide_eq_true (Bool.and_eq_true_iff.mp h).2)
  have hsmall : c.toNat - '0'.toNat < 10 := by
    have hzero : '0'.toNat = 48 := rfl
    omega
  rw [radixDigit, hexValue_of_isDigit h, Option.filter_some,
    if_pos (decide_eq_true hsmall)]

theorem isDigit_of_radixDigit {c : Char} (h : (radixDigit 10 c).isSome) :
    c.isDigit := by
  have hall : ∀ k < 128, (radixDigit 10 (Char.ofNat k)).isSome →
      (Char.ofNat k).isDigit := by decide +kernel
  obtain ⟨v, hv⟩ := Option.isSome_iff_exists.mp h
  have hdigit := hall c.toNat
    (digit_lt (Option.filter_eq_some_iff.mp hv).1)
  rw [Char.ofNat_toNat] at hdigit
  exact hdigit h

theorem numeral_ten_iff {ds : Text} : Numeral 10 ds ↔ ds ≠ [] ∧ Digits ds := by
  apply and_congr_right'
  constructor
  · exact fun h c hc => isDigit_of_radixDigit (h c hc)
  · intro h c hc
    rw [radixDigit_of_isDigit (h c hc)]
    rfl

theorem radixValue_digits {ds : Text} (hds : Digits ds) (hne : ds ≠ []) :
    radixValue 10 ds = some (value ds) := by
  have hfold : ∀ n, ds.foldlM
      (fun n c => (radixDigit 10 c).map (10 * n + ·)) n
      = some (Nat.ofDigitChars 10 ds n) := by
    clear hne
    induction ds with
    | nil => exact fun n => rfl
    | cons c ds ih =>
      intro n
      rw [List.foldlM_cons, radixDigit_of_isDigit (hds c List.mem_cons_self),
        Option.map_some, Option.bind_eq_bind, Option.bind_some,
        ih fun d hd => hds d (List.mem_cons_of_mem c hd),
        Nat.ofDigitChars_cons]
  rw [radixValue, if_neg hne, hfold]

theorem radixLetter_cases {c : Char} {radix : ℕ}
    (h : radixLetter c = some radix) :
    c ∈ ['x', 'X', 'o', 'O', 'b', 'B'] := by
  unfold radixLetter at h
  split_ifs at h with hx ho hb
  · rcases hx with rfl | rfl <;> decide
  · rcases ho with rfl | rfl <;> decide
  · rcases hb with rfl | rfl <;> decide

/-- A letter is no digit and no blank. -/
theorem radixLetter_plain {c : Char} {radix : ℕ}
    (h : radixLetter c = some radix) :
    c.isDigit = false ∧ isSpace c = false := by
  have hall : (['x', 'X', 'o', 'O', 'b', 'B'].all fun d =>
      !d.isDigit && !isSpace d) = true := by decide +kernel
  have hplain := List.all_eq_true.mp hall c (radixLetter_cases h)
  rwa [Bool.and_eq_true, Bool.not_eq_true', Bool.not_eq_true'] at hplain

theorem radixPrefix_eq_some {s ds : Text} {radix : ℕ} :
    radixPrefix s = some (radix, ds) ↔
      ∃ c, s = '0' :: c :: ds ∧ radixLetter c = some radix := by
  constructor
  · intro h
    unfold radixPrefix at h
    split at h
    · cases h
    · cases h
    · rename_i z c rest
      split_ifs at h with hzero
      obtain ⟨r, hr, heq⟩ := Option.map_eq_some_iff.mp h
      cases heq
      exact ⟨c, by rw [hzero], hr⟩
  · rintro ⟨c, rfl, hc⟩
    rw [radixPrefix, if_pos rfl, hc, Option.map_some]

theorem radixPrefix_digits {ds : Text} (h : Digits ds) :
    radixPrefix ds = none := by
  rw [Option.eq_none_iff_forall_not_mem]
  rintro ⟨radix, rest⟩ hprefix
  obtain ⟨c, rfl, hc⟩ := radixPrefix_eq_some.mp (Option.mem_def.mp hprefix)
  have hdigit := h c (List.mem_cons_of_mem _ List.mem_cons_self)
  rw [(radixLetter_plain hc).1] at hdigit
  cases hdigit

theorem stripSign_digits {ds : Text} (h : Digits ds) :
    stripSign ds = (false, ds) := by
  unfold stripSign
  split
  · exact absurd (h '-' List.mem_cons_self) (by decide)
  · exact absurd (h '+' List.mem_cons_self) (by decide)
  · rfl

theorem integerLiteral_digits {ds : Text} (hds : Digits ds) (hne : ds ≠ []) :
    integerLiteral ds = some ((value ds : ℕ) : ℤ) := by
  rw [integerLiteral, if_neg hne, radixPrefix_digits hds]
  dsimp only
  rw [stripSign_digits hds]
  dsimp only
  rw [radixValue_digits hds hne, Option.map_some, if_neg Bool.false_ne_true]

theorem IntegerLiteral.of_isSome {s : Text} (h : (integerLiteral s).isSome) :
    IntegerLiteral s := by
  unfold integerLiteral at h
  split at h
  · rename_i hnil
    rw [hnil]
    exact .empty
  · split at h
    · rename_i radix ds hprefix
      rw [Option.isSome_map, radixValue_isSome_iff] at h
      obtain ⟨c, rfl, hc⟩ := radixPrefix_eq_some.mp hprefix
      exact .prefixed hc h
    · dsimp only at h
      rw [Option.isSome_map, radixValue_isSome_iff] at h
      unfold stripSign at h
      split at h
      · exact .signed (by decide) h
      · exact .signed (by decide) h
      · exact .decimal h

theorem radixPrefix_sign {c : Char} (hc : c ∈ ['+', '-']) (ds : Text) :
    radixPrefix (c :: ds) = none := by
  rw [Option.eq_none_iff_forall_not_mem]
  rintro ⟨radix, rest⟩ hprefix
  obtain ⟨d, heq, -⟩ := radixPrefix_eq_some.mp (Option.mem_def.mp hprefix)
  rw [(List.cons.inj heq).1] at hc
  exact absurd hc (by decide)

theorem stripSign_sign {c : Char} (hc : c ∈ ['+', '-']) (ds : Text) :
    (stripSign (c :: ds)).2 = ds := by
  rcases List.mem_pair.mp hc with rfl | rfl
  · rfl
  · rfl

theorem IntegerLiteral.isSome {s : Text} (h : IntegerLiteral s) :
    (integerLiteral s).isSome := by
  cases h with
  | empty => rfl
  | decimal hds =>
    obtain ⟨hne, hdigits⟩ := numeral_ten_iff.mp hds
    rw [integerLiteral_digits hdigits hne]
    rfl
  | @signed c ds hc hds =>
    rw [integerLiteral, if_neg (List.cons_ne_nil c ds),
      radixPrefix_sign hc]
    dsimp only
    rw [Option.isSome_map, stripSign_sign hc, radixValue_isSome_iff]
    exact hds
  | @prefixed radix c ds hc hds =>
    rw [integerLiteral, if_neg (List.cons_ne_nil _ _),
      radixPrefix_eq_some.mpr ⟨c, rfl, hc⟩]
    dsimp only
    rw [Option.isSome_map, radixValue_isSome_iff]
    exact hds

theorem integerLiteral_isSome_iff {s : Text} :
    (integerLiteral s).isSome ↔ IntegerLiteral s :=
  ⟨IntegerLiteral.of_isSome, IntegerLiteral.isSome⟩

theorem Numeral.no_space {radix : ℕ} {ds : Text} (h : Numeral radix ds) :
    ∀ c ∈ ds, isSpace c = false := by
  intro c hc
  obtain ⟨v, hv⟩ := Option.isSome_iff_exists.mp (h.2 c hc)
  exact (digit_plain (Option.filter_eq_some_iff.mp hv).1).1

theorem IntegerLiteral.no_space {s : Text} (h : IntegerLiteral s) :
    ∀ c ∈ s, isSpace c = false := by
  cases h with
  | empty => exact fun c hc => absurd hc List.not_mem_nil
  | decimal hds => exact hds.no_space
  | signed hc hds =>
    rw [List.forall_mem_cons]
    refine ⟨?_, hds.no_space⟩
    rcases List.mem_pair.mp hc with rfl | rfl <;> decide
  | @prefixed radix c ds hc hds =>
    rw [List.forall_mem_cons, List.forall_mem_cons]
    exact ⟨by decide, (radixLetter_plain hc).2, hds.no_space⟩

theorem bigInt_around {before ds after : Text} (hbefore : Blank before)
    (hds : Digits ds) (hne : ds ≠ []) (hafter : Blank after) :
    bigInt (before ++ (ds ++ after)) = some ((value ds : ℕ) : ℤ) := by
  have htight : Tight ds :=
    ⟨fun c hc => isSpace_of_isDigit (hds c (List.mem_of_mem_head? hc)),
      fun c hc => isSpace_of_isDigit (hds c (List.mem_of_getLast? hc))⟩
  rw [bigInt, trim_around hbefore htight hafter,
    integerLiteral_digits hds hne]

theorem bigInt_digits {ds : Text} (hds : Digits ds) (hne : ds ≠ []) :
    bigInt ds = some ((value ds : ℕ) : ℤ) := by
  have h := bigInt_around Blank.nil hds hne Blank.nil
  rwa [List.nil_append, List.append_nil] at h

theorem bigInt_of_space {before s : Text} (hbefore : Blank before)
    (hs : Tight s) (hspace : ∃ c ∈ s, isSpace c) :
    bigInt (before ++ s) = none := by
  obtain ⟨c, hc, hblank⟩ := hspace
  have htrim : trim (before ++ s) = s := by
    have h := trim_around hbefore hs Blank.nil
    rwa [List.append_nil] at h
  rw [bigInt, htrim, ← Option.not_isSome_iff_eq_none,
    integerLiteral_isSome_iff]
  intro hliteral
  exact absurd (hliteral.no_space c hc) (by rw [hblank]; decide)

end Js
