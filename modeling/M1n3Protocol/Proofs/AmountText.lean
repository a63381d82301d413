/-
Amounts as text: what the two parsers read, and that neither formatter
loses anything.

# The strict parser

`parseQuoteAmount` reads a text between blanks exactly if it is written
with digits and at most one point, with no more fractional digits than the
quote has decimals. What it returns is that number, scaled.

# The other one

`parseAmount` cuts the text at its points and its fraction at the decimals,
and leaves the rest to `BigInt`. So it also reads a sign, a radix, a second
point, no digit at all, and fractional digits it then drops. Blanks behind
a fraction can take the place of its zeros, and are dropped as well: the
number comes out too small by powers of ten. `quote-format.ts` says that it
rejects what "would truncate".
-/
import M1n3Protocol.Web.AmountText

namespace M1n3Protocol.Web

open Js Decimal

-- =================================================== the form of an amount

theorem exists_written {t : Text} (hsome : ¬ (t = [] ∨ t = ['.']))
    (hshape : digitsWithPoint t) : ∃ whole frac, Written t whole frac := by
  have hwhole : Digits (t.takeWhile Char.isDigit) := fun c hc =>
    List.mem_takeWhile_imp hc
  have hsplit : t.takeWhile Char.isDigit ++ t.dropWhile Char.isDigit = t :=
    List.takeWhile_append_dropWhile
  unfold digitsWithPoint at hshape
  split at hshape
  · rename_i hrest
    rw [hrest, List.append_nil] at hsplit
    rw [hsplit] at hwhole
    refine ⟨t, [], hwhole, .nil, ?_, Or.inl ⟨rfl, rfl⟩⟩
    rw [List.append_nil]
    exact fun hnil => hsome (Or.inl hnil)
  · rename_i c rest hrest
    obtain ⟨hpoint, hfrac⟩ := Bool.and_eq_true_iff.mp hshape
    rw [hrest, beq_iff_eq.mp hpoint] at hsplit
    refine ⟨t.takeWhile Char.isDigit, rest, hwhole,
      List.all_eq_true.mp hfrac, ?_, Or.inr hsplit.symm⟩
    intro hnil
    obtain ⟨hnowhole, hnofrac⟩ := List.append_eq_nil_iff.mp hnil
    rw [hnowhole, hnofrac] at hsplit
    exact hsome (Or.inr hsplit.symm)

section Written

variable {t whole frac : Text}

/-- A digit makes it more than a point. -/
theorem written_ne (h : Written t whole frac) :
    ¬ (t = [] ∨ t = ['.']) := by
  rcases h.shape with ⟨rfl, rfl⟩ | rfl
  · rintro (hnil | hpoint)
    · exact h.some_digit (by rw [hnil, List.append_nil])
    · apply h.whole_digits.no_point
      rw [hpoint]
      exact List.mem_cons_self
  · rintro (hnil | hpoint)
    · exact List.append_ne_nil_of_right_ne_nil _ (List.cons_ne_nil _ _) hnil
    · apply h.some_digit
      rw [List.append_eq_singleton_iff] at hpoint
      rcases hpoint with ⟨rfl, hfrac⟩ | ⟨-, hfrac⟩
      · exact (List.cons.inj hfrac).2
      · cases hfrac

theorem digitsWithPoint_written (h : Written t whole frac) :
    digitsWithPoint t := by
  rcases h.shape with ⟨rfl, rfl⟩ | rfl
  · rw [digitsWithPoint, List.dropWhile_eq_nil_iff.mpr h.whole_digits]
  · rw [digitsWithPoint, List.dropWhile_append_of_pos h.whole_digits,
      List.dropWhile_cons_of_neg (by decide)]
    exact Bool.and_eq_true_iff.mpr ⟨rfl, List.all_eq_true.mpr h.frac_digits⟩

theorem written_no_space (h : Written t whole frac) :
    ∀ c ∈ t, isSpace c = false := by
  intro c hc
  rcases h.mem c hc with hdigit | rfl
  · exact isSpace_of_isDigit hdigit
  · decide

theorem written_tight (h : Written t whole frac) : Tight t :=
  ⟨fun c hc => written_no_space h c (List.mem_of_mem_head? hc),
    fun c hc => written_no_space h c (List.mem_of_getLast? hc)⟩

end Written

-- ======================================================== the strict parser

/-- The number a text spells, scaled by `10 ^ d`. -/
def IsAmount (d : ℕ) (t : Text) (v : ℤ) : Prop :=
  ∃ whole frac, Written t whole frac ∧ frac.length ≤ d ∧
    (v : ℚ) = number whole frac * 10 ^ d

theorem eq_scaled_iff {whole frac : Text} {d : ℕ} {v : ℤ}
    (h : frac.length ≤ d) :
    (v : ℚ) = number whole frac * 10 ^ d ↔
      v = (value (whole ++ frac) * 10 ^ (d - frac.length) : ℕ) := by
  rw [number_scaled h, ← Int.cast_natCast, Int.cast_inj]

theorem parseQuoteAmount_written {s whole frac : Text}
    (h : Written (trim s) whole frac) (quote : QuoteToken) :
    parseQuoteAmount s quote
      = if quote.decimals < frac.length then none
        else some ((value (whole ++ frac)
          * 10 ^ (quote.decimals - frac.length) : ℕ) : ℤ) := by
  have hparts : (split '.' (trim s)).getD 0 [] = whole ∧
      (split '.' (trim s)).getD 1 [] = frac := by
    rcases h.shape with ⟨ht, hfrac⟩ | ht
    · rw [ht, hfrac, split_of_notMem h.whole_digits.no_point]
      exact ⟨rfl, rfl⟩
    · rw [ht, split_append h.whole_digits.no_point,
        split_of_notMem h.frac_digits.no_point]
      exact ⟨rfl, rfl⟩
  -- a `0` stands for a whole part that is not there
  have hwhole : Digits (if whole = [] then ['0'] else whole) ∧
      (if whole = [] then ['0'] else whole) ≠ [] ∧
      value (if whole = [] then ['0'] else whole) = value whole := by
    split
    · rename_i hnil
      rw [hnil]
      exact ⟨Digits.zeros 1, List.cons_ne_nil _ _, rfl⟩
    · rename_i hne
      exact ⟨h.whole_digits, hne, rfl⟩
  obtain ⟨hdigits, hne, hvalue⟩ := hwhole
  have hread := bigInt_digits
    (hdigits.append (h.frac_digits.append
      (Digits.zeros (quote.decimals - frac.length))))
    (List.append_ne_nil_of_left_ne_nil hne _)
  rw [parseQuoteAmount, if_neg (written_ne h),
    if_neg (not_not.mpr (digitsWithPoint_written h)), hparts.1, hparts.2]
  dsimp only
  rw [padEnd, List.rightpad, hread, ← List.append_assoc, value_append_zeros,
    value_append, value_append, hvalue]

theorem written_of_parseQuoteAmount {s : Text} {quote : QuoteToken}
    (h : (parseQuoteAmount s quote).isSome) :
    ∃ whole frac, Written (trim s) whole frac := by
  unfold parseQuoteAmount at h
  dsimp only at h
  split at h
  · cases h
  · rename_i hsome
    split at h
    · cases h
    · rename_i hshape
      exact exists_written hsome (not_not.mp hshape)

theorem parseQuoteAmount_eq_some_iff {s : Text} {quote : QuoteToken}
    {v : ℤ} : parseQuoteAmount s quote = some v ↔
      IsAmount quote.decimals (trim s) v := by
  constructor
  · intro h
    obtain ⟨whole, frac, hwritten⟩ :=
      written_of_parseQuoteAmount (Option.isSome_of_eq_some h)
    rw [parseQuoteAmount_written hwritten] at h
    split at h
    · cases h
    · rename_i hd
      rw [not_lt] at hd
      exact ⟨whole, frac, hwritten, hd,
        (eq_scaled_iff hd).mpr (Option.some.inj h).symm⟩
  · rintro ⟨whole, frac, hwritten, hd, hv⟩
    rw [parseQuoteAmount_written hwritten, if_neg (not_lt.mpr hd),
      (eq_scaled_iff hd).mp hv]

-- =============================================================== the other one

/-- The text `BigInt` is given: the first part, and of the second as many
characters as there are decimals, zeros behind it. -/
def cutText (decStr : Text) (decimals : ℕ) : Text :=
  (split '.' decStr).getD 0 []
    ++ ((split '.' decStr).getD 1 [] ++ List.replicate decimals '0').take
        decimals

theorem parseAmount_eq (decStr : Text) (decimals : ℕ) :
    parseAmount decStr decimals
      = bigInt (dropLeadingZeros (cutText decStr decimals)) := by
  have hnil : bigInt ['0'] = bigInt [] := by decide +kernel
  show bigInt (if dropLeadingZeros (cutText decStr decimals) = [] then ['0']
    else dropLeadingZeros (cutText decStr decimals)) = _
  split
  · rename_i hempty
    rw [hempty, hnil]
  · rfl

section Gap

variable {before ds gap : Text}

theorem bigInt_zeros (hbefore : Blank before) (hds : Digits ds)
    (hne : ds ≠ []) (k : ℕ) :
    bigInt (dropLeadingZeros (before ++ (ds ++ List.replicate k '0')))
      = some ((value ds * 10 ^ k : ℕ) : ℤ) := by
  have hhead : ∀ c ∈ ([] : Text).head?, c.isDigit = false := fun c hc =>
    absurd hc (Option.not_mem_none c)
  obtain ⟨es, hdrop, hes, hesne, hvalue⟩ := dropLeadingZeros_around hbefore
    (hds.append (Digits.zeros k))
    (List.append_ne_nil_of_left_ne_nil hne _) hhead
  have hread := bigInt_around hbefore hes hesne Blank.nil
  rw [List.append_nil] at hread
  rw [List.append_nil, List.append_nil] at hdrop
  rw [hdrop, hread, hvalue, value_append_zeros]

/-- Zeros behind a gap make it a blank between digits. -/
theorem bigInt_gap (hbefore : Blank before) (hds : Digits ds)
    (hne : ds ≠ []) (hgap : Blank gap) (hsome : gap ≠ []) (k : ℕ) :
    bigInt (dropLeadingZeros
        (before ++ (ds ++ (gap ++ List.replicate k '0'))))
      = if k = 0 then some ((value ds : ℕ) : ℤ) else none := by
  have hhead : ∀ c ∈ (gap ++ List.replicate k '0').head?,
      c.isDigit = false := by
    intro c hc
    rw [List.head?_append_of_ne_nil _ hsome] at hc
    exact hgap.not_isDigit c (List.mem_of_mem_head? hc)
  obtain ⟨es, hdrop, hes, hesne, hvalue⟩ :=
    dropLeadingZeros_around hbefore hds hne hhead
  rw [hdrop]
  split
  · rename_i hk
    rw [hk, List.replicate_zero, List.append_nil,
      bigInt_around hbefore hes hesne hgap, hvalue]
  · rename_i hk
    apply bigInt_of_space hbefore
    · constructor
      · intro c hc
        rw [List.head?_append_of_ne_nil _ hesne] at hc
        exact isSpace_of_isDigit (hes c (List.mem_of_mem_head? hc))
      · intro c hc
        rw [List.getLast?_append, List.getLast?_append,
          List.getLast?_replicate, if_neg hk, Option.some_or,
          Option.some_or] at hc
        cases Option.mem_some.mp hc
        decide
    · obtain ⟨c, hc⟩ := List.exists_mem_of_ne_nil gap hsome
      exact ⟨c, List.mem_append_right _ (List.mem_append_left _ hc),
        hgap c hc⟩

end Gap

/-- The blanks that stay behind the digits of an amount, and the zeros
behind these. -/
def gapOf (t frac after : Text) (decimals : ℕ) : Text × ℕ :=
  if '.' ∈ t then
    (after.take (decimals - frac.length),
      decimals - frac.length - after.length)
  else (after, decimals)

theorem cutText_written {t whole frac before after : Text}
    (h : Written t whole frac) (hbefore : Blank before)
    (hafter : Blank after) {decimals : ℕ} (hd : frac.length ≤ decimals) :
    cutText (before ++ (t ++ after)) decimals
      = before ++ ((whole ++ frac) ++ ((gapOf t frac after decimals).1
          ++ List.replicate (gapOf t frac after decimals).2 '0')) := by
  rcases h.shape with ⟨rfl, rfl⟩ | rfl
  · have hpoint : '.' ∉ before ++ (t ++ after) := by
      rw [List.mem_append, List.mem_append, not_or, not_or]
      exact ⟨hbefore.no_point, h.whole_digits.no_point, hafter.no_point⟩
    rw [cutText, split_of_notMem hpoint, gapOf,
      if_neg h.whole_digits.no_point]
    simp only [List.getD_cons_zero, List.getD_cons_succ, List.getD_nil,
      List.nil_append, List.append_nil, List.append_assoc]
    rw [List.take_of_length_le (List.length_replicate).le]
  · have hfirst : '.' ∉ before ++ whole := by
      rw [List.mem_append, not_or]
      exact ⟨hbefore.no_point, h.whole_digits.no_point⟩
    have hsecond : '.' ∉ frac ++ after := by
      rw [List.mem_append, not_or]
      exact ⟨h.frac_digits.no_point, hafter.no_point⟩
    have hsplit : split '.' (before ++ (whole ++ '.' :: frac ++ after))
        = [before ++ whole, frac ++ after] := by
      rw [← split_of_notMem hsecond, ← split_append hfirst]
      simp only [List.append_assoc, List.cons_append]
    rw [cutText, hsplit, gapOf, if_pos (by simp)]
    simp only [List.getD_cons_zero, List.getD_cons_succ, List.append_assoc]
    rw [List.take_append, List.take_of_length_le hd, List.take_append,
      List.take_replicate, min_eq_left (by omega)]

/-- What is read of an amount between blanks. -/
theorem parseAmount_written {t whole frac before after : Text}
    (h : Written t whole frac) (hbefore : Blank before)
    (hafter : Blank after) {decimals : ℕ} (hd : frac.length ≤ decimals) :
    parseAmount (before ++ (t ++ after)) decimals
      = if (gapOf t frac after decimals).1 = [] then
          some ((value (whole ++ frac)
            * 10 ^ (gapOf t frac after decimals).2 : ℕ) : ℤ)
        else if (gapOf t frac after decimals).2 = 0 then
          some ((value (whole ++ frac) : ℕ) : ℤ)
        else none := by
  have hgap : Blank (gapOf t frac after decimals).1 := by
    unfold gapOf
    split
    · exact fun c hc => hafter c (List.mem_of_mem_take hc)
    · exact hafter
  rw [parseAmount_eq, cutText_written h hbefore hafter hd]
  split
  · rename_i hnil
    rw [hnil, List.nil_append, bigInt_zeros hbefore h.digits h.some_digit]
  · rename_i hsome
    rw [bigInt_gap hbefore h.digits h.some_digit hgap hsome]

-- ================================================================= agreement

/-- An amount between blanks of which none is taken for a fractional digit
of a number other than 0. -/
def PlainAmount (d : ℕ) (s : Text) : Prop :=
  ∃ before t after whole frac, s = before ++ (t ++ after) ∧
    Blank before ∧ Blank after ∧ Written t whole frac ∧ frac.length ≤ d ∧
    ('.' ∈ t → frac.length = d ∨ frac.length + after.length < d ∨
      number whole frac = 0)

/-- There is no integer in what the text is cut to. -/
def NoInteger (d : ℕ) (s : Text) : Prop :=
  ¬ IntegerLiteral (trim (dropLeadingZeros (cutText s d)))

theorem parseAmount_eq_none_iff {s : Text} {d : ℕ} :
    parseAmount s d = none ↔ NoInteger d s := by
  rw [parseAmount_eq, bigInt, ← Option.not_isSome_iff_eq_none,
    integerLiteral_isSome_iff, NoInteger]

/-- Where blanks do not stand for digits, they make the text unreadable or
leave the number as it is. -/
theorem parseAmount_plain {t whole frac before after : Text}
    (h : Written t whole frac) (hbefore : Blank before)
    (hafter : Blank after) {d : ℕ} (hd : frac.length ≤ d)
    (hplain : '.' ∈ t → frac.length = d ∨ frac.length + after.length < d ∨
      number whole frac = 0) {v : ℤ}
    (hv : parseAmount (before ++ (t ++ after)) d = some v) :
    v = (value (whole ++ frac) * 10 ^ (d - frac.length) : ℕ) := by
  rw [parseAmount_written h hbefore hafter hd, gapOf] at hv
  by_cases hpoint : '.' ∈ t
  · rw [if_pos hpoint] at hv
    rcases hplain hpoint with hfull | hfew | hzero
    · rw [hfull, Nat.sub_self, List.take_zero, if_pos rfl, Nat.zero_sub] at hv
      rw [← Option.some.inj hv, hfull, Nat.sub_self]
    · have hbehind : d - frac.length - after.length ≠ 0 := by omega
      rw [if_neg hbehind] at hv
      split at hv
      · rename_i hgap
        have hnone : after = [] := by
          rcases List.take_eq_nil_iff.mp hgap with hall | hnil
          · omega
          · exact hnil
        rw [← Option.some.inj hv, hnone, List.length_nil, Nat.sub_zero]
      · cases hv
    · rw [number_eq_zero_iff] at hzero
      rw [hzero, zero_mul] at hv
      rw [hzero, zero_mul]
      split_ifs at hv
      · exact (Option.some.inj hv).symm
      · exact (Option.some.inj hv).symm
  · have hwhole := h.frac_eq_nil hpoint
    rw [if_neg hpoint] at hv
    rw [hwhole, List.length_nil, Nat.sub_zero]
    rw [hwhole] at hv
    split_ifs at hv with hgap hnone
    · exact (Option.some.inj hv).symm
    · have hd0 : d = 0 := hnone
      rw [hd0, pow_zero, mul_one]
      exact (Option.some.inj hv).symm

/-- Blanks that stand for all missing digits are dropped with them. -/
theorem parseAmount_filled {t whole frac before after : Text}
    (h : Written t whole frac) (hbefore : Blank before)
    (hafter : Blank after) {d : ℕ} (hpoint : '.' ∈ t)
    (hmissing : frac.length < d) (hfilled : d ≤ frac.length + after.length) :
    parseAmount (before ++ (t ++ after)) d
      = some ((value (whole ++ frac) : ℕ) : ℤ) := by
  have hgap : after.take (d - frac.length) ≠ [] := by
    rw [Ne, List.take_eq_nil_iff, not_or]
    refine ⟨by omega, ?_⟩
    rintro rfl
    rw [List.length_nil] at hfilled
    omega
  rw [parseAmount_written h hbefore hafter hmissing.le, gapOf, if_pos hpoint,
    if_neg hgap, if_pos]
  show d - frac.length - after.length = 0
  omega

/-- What the second parser returns, the first does. -/
def Agrees (quote : QuoteToken) (s : Text) : Prop :=
  ∀ v, parseAmount s quote.decimals = some v →
    parseQuoteAmount s quote = some v

theorem agrees_iff {quote : QuoteToken} {s : Text} :
    Agrees quote s ↔
      NoInteger quote.decimals s ∨ PlainAmount quote.decimals s := by
  constructor
  · intro hagrees
    by_cases hno : NoInteger quote.decimals s
    · exact Or.inl hno
    · rw [← parseAmount_eq_none_iff] at hno
      obtain ⟨v, hv⟩ := Option.ne_none_iff_exists'.mp hno
      obtain ⟨whole, frac, hwritten, hd, hvalue⟩ :=
        parseQuoteAmount_eq_some_iff.mp (hagrees v hv)
      obtain ⟨before, after, hs, hbefore, hafter⟩ := exists_around s
      refine Or.inr ⟨before, trim s, after, whole, frac, hs, hbefore, hafter,
        hwritten, hd, fun hpoint => ?_⟩
      by_contra hfilled
      rw [not_or, not_or, number_eq_zero_iff] at hfilled
      obtain ⟨hmissing, hbehind, hnonzero⟩ := hfilled
      have hread := parseAmount_filled hwritten hbefore hafter hpoint
        (by omega) (not_lt.mp hbehind)
      rw [← hs, hv, Option.some.injEq] at hread
      have hscaled := (eq_scaled_iff hd).mp hvalue
      rw [hread, Int.natCast_inj] at hscaled
      have hten : 1 < 10 ^ (quote.decimals - frac.length) :=
        Nat.one_lt_pow (by omega) (by decide)
      have := Nat.mul_lt_mul_of_pos_left hten (Nat.pos_of_ne_zero hnonzero)
      omega
  · rintro (hno | hplain) v hv
    · rw [parseAmount_eq_none_iff.mpr hno] at hv
      cases hv
    · obtain ⟨before, t, after, whole, frac, rfl, hbefore, hafter, hwritten,
        hd, hfew⟩ := hplain
      have hvalue := parseAmount_plain hwritten hbefore hafter hd hfew hv
      rw [parseQuoteAmount_eq_some_iff,
        trim_around hbefore (written_tight hwritten) hafter]
      exact ⟨whole, frac, hwritten, hd, (eq_scaled_iff hd).mpr hvalue⟩

-- ============================================================== there and back

/-- The number of `formatPriceInQuote`, which its symbol follows. -/
def numberPart (s : Text) : Text := s.takeWhile fun c => c != ' '

theorem bigIntText_natCast (n : ℕ) :
    bigIntText (n : ℤ) = Nat.toDigits 10 n := by
  rw [bigIntText, if_neg (Int.not_lt.mpr (Int.natCast_nonneg n)),
    Int.natAbs_natCast]

theorem tdiv_natCast (x d : ℕ) :
    (x : ℤ).tdiv (10 ^ d) = ((x / 10 ^ d : ℕ) : ℤ) := by
  exact_mod_cast (Int.ofNat_tdiv x (10 ^ d)).symm

theorem tmod_natCast (x d : ℕ) :
    (x : ℤ).tmod (10 ^ d) = ((x % 10 ^ d : ℕ) : ℤ) := by
  exact_mod_cast (Int.ofNat_tmod x (10 ^ d)).symm

theorem dropTrailingZeros_fraction (x d : ℕ) :
    dropTrailingZeros (padStart (bigIntText ((x % 10 ^ d : ℕ) : ℤ)) d '0')
      = fraction x d := by
  rw [bigIntText_natCast]
  rfl

theorem shortest_zero (x : ℕ) : shortest x 0 = Nat.toDigits 10 x := by
  rw [shortest, pow_zero, if_pos (Nat.mod_one x), Nat.div_one]

theorem formatPriceInQuote_natCast (x : ℕ) (quote : QuoteToken) :
    formatPriceInQuote x quote
      = shortest x quote.decimals ++ ' ' :: quote.symbol := by
  unfold formatPriceInQuote
  dsimp only
  rw [tdiv_natCast, tmod_natCast, dropTrailingZeros_fraction,
    bigIntText_natCast, bigIntText_natCast]
  split
  · rename_i hzero
    rw [hzero, shortest_zero]
  · rw [shortest]
    by_cases hfrac : x % 10 ^ quote.decimals = 0
    · rw [if_pos hfrac, if_pos (Int.natCast_eq_zero.mpr hfrac)]
    · rw [if_neg hfrac, if_neg (mt Int.natCast_eq_zero.mp hfrac)]

theorem formatAmount_eq {raw : RawAmount} {x : ℕ}
    (h : raw.toBigInt = some (x : ℤ)) (d : ℕ) :
    formatAmount raw d = some (shortest x d) := by
  rw [formatAmount, h, Option.map_some]
  dsimp only
  rw [tdiv_natCast, tmod_natCast, dropTrailingZeros_fraction,
    bigIntText_natCast, bigIntText_natCast]
  split
  · rename_i hzero
    rw [hzero, shortest_zero]
  · rw [shortest]
    by_cases hfrac : x % 10 ^ d = 0
    · rw [if_pos hfrac, if_neg (not_not.mpr (fraction_eq_nil_iff.mpr hfrac))]
    · rw [if_neg hfrac, if_pos (mt fraction_eq_nil_iff.mp hfrac)]

theorem parse_shortest (x : ℕ) (quote : QuoteToken) :
    parseQuoteAmount (shortest x quote.decimals) quote = some (x : ℤ) ∧
      parseAmount (shortest x quote.decimals) quote.decimals
        = some (x : ℤ) := by
  obtain ⟨whole, frac, hwritten, hd, hvalue⟩ :=
    shortest_written x quote.decimals
  have htrim : trim (shortest x quote.decimals)
      = shortest x quote.decimals :=
    trim_eq_self (written_tight hwritten)
  constructor
  · rw [parseQuoteAmount_written (by rw [htrim]; exact hwritten),
      if_neg (not_lt.mpr hd), hvalue]
  · have hread := parseAmount_written hwritten Blank.nil Blank.nil hd
    have hnogap : gapOf (shortest x quote.decimals) frac [] quote.decimals
        = ([], quote.decimals - frac.length) := by
      rw [gapOf]
      split
      · rw [List.take_nil, List.length_nil, Nat.sub_zero]
      · rename_i hpoint
        rw [hwritten.frac_eq_nil hpoint, List.length_nil, Nat.sub_zero]
    rw [List.nil_append, List.append_nil, hnogap, if_pos rfl, hvalue] at hread
    exact hread

/-- Both parsers take both formatters back. -/
def RoundTrips (quote : QuoteToken) (x : ℕ) : Prop :=
  (parseQuoteAmount (numberPart (formatPriceInQuote x quote)) quote
      = some (x : ℤ) ∧
    parseAmount (numberPart (formatPriceInQuote x quote)) quote.decimals
      = some (x : ℤ)) ∧
  ∀ raw : RawAmount, raw.toBigInt = some (x : ℤ) →
    ∃ out, formatAmount raw quote.decimals = some out ∧
      parseQuoteAmount out quote = some (x : ℤ) ∧
      parseAmount out quote.decimals = some (x : ℤ)

theorem roundTrips (quote : QuoteToken) (x : ℕ) : RoundTrips quote x := by
  have hparse := parse_shortest x quote
  have hpart : numberPart (formatPriceInQuote x quote)
      = shortest x quote.decimals := by
    obtain ⟨whole, frac, hwritten, -, -⟩ := shortest_written x quote.decimals
    rw [formatPriceInQuote_natCast, numberPart, List.takeWhile_append_of_pos,
      List.takeWhile_cons_of_neg (by decide), List.append_nil]
    intro c hc
    have hspace := written_no_space hwritten c hc
    rw [bne_iff_ne]
    rintro rfl
    exact absurd hspace (by decide)
  refine ⟨by rw [hpart]; exact hparse, fun raw hraw => ?_⟩
  exact ⟨_, formatAmount_eq hraw quote.decimals, hparse⟩

/-- The first parser reads amounts and nothing else, both take back what is
written, and the second agrees with the first exactly where it finds no
integer or a plain amount. -/
theorem amount_text_exact (quote : QuoteToken) (s : Text) (x : ℕ) :
    (∀ v, parseQuoteAmount s quote = some v ↔
      IsAmount quote.decimals (trim s) v) ∧
    (Agrees quote s ↔
      NoInteger quote.decimals s ∨ PlainAmount quote.decimals s) ∧
    RoundTrips quote x :=
  ⟨fun _ => parseQuoteAmount_eq_some_iff, agrees_iff, roundTrips quote x⟩

/-- With six decimals `1.2345678` is cut to 1.234567, where the first
parser refuses it. -/
theorem amount_text_cut :
    ¬ ∀ (quote : QuoteToken) (s : Text) (x : ℕ),
      (∀ v, parseQuoteAmount s quote = some v ↔
        IsAmount quote.decimals (trim s) v) ∧
      Agrees quote s ∧ RoundTrips quote x := by
  intro hall
  have hagrees := (hall ⟨"USDC".toList, 6⟩ "1.2345678".toList 0).2.1
  have hread : parseAmount "1.2345678".toList 6 = some 1234567 := by
    decide +kernel
  have hrefused : parseQuoteAmount "1.2345678".toList ⟨"USDC".toList, 6⟩
      = none := by decide +kernel
  have hgiven := hagrees 1234567 hread
  rw [hrefused] at hgiven
  cases hgiven

end M1n3Protocol.Web
