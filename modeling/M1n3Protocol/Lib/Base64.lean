/-
Base64: three bytes as four symbols of six bits, what is left over as two
or three symbols, and the padding to a multiple of four.

# Reading

White space is skipped, and up to two signs of padding are where there
are four symbols a group. Bits beyond the last whole byte are dropped,
whatever they are. One symbol by itself is no byte.

# What it comes to

Bytes go through a list of numbers below 64, and `bytesOf` undoes
`sextets` group by group. The symbols are read one by one, so an alphabet
with other symbols for the last two numbers has the same round trip.
-/
import M1n3Protocol.Lib.Hex

namespace Base64

-- ================================================================ symbols

def symbol (n : Nat) : Char :=
  if n < 26 then Char.ofNat (65 + n)
  else if n < 52 then Char.ofNat (71 + n)
  else if n < 62 then Char.ofNat (n - 4)
  else if n = 62 then '+'
  else '/'

def value (c : Char) : Option Nat :=
  if 'A' ≤ c ∧ c ≤ 'Z' then some (c.toNat - 65)
  else if 'a' ≤ c ∧ c ≤ 'z' then some (c.toNat - 71)
  else if '0' ≤ c ∧ c ≤ '9' then some (c.toNat + 4)
  else if c = '+' then some 62
  else if c = '/' then some 63
  else none

theorem value_symbol {n : Nat} (h : n < 64) :
    value (symbol n) = some n := by
  have hall : ∀ k < 64, value (symbol k) = some k := by decide +kernel
  exact hall n h

/-- White space, as far as it is skipped. -/
def isBlank (c : Char) : Bool :=
  [0x09, 0x0a, 0x0c, 0x0d, 0x20].contains c.toNat

/-- A symbol is no padding and no white space. -/
theorem symbol_plain {n : Nat} (h : n < 64) :
    symbol n ≠ '=' ∧ isBlank (symbol n) = false := by
  have hall : ∀ k < 64, symbol k ≠ '='
      ∧ isBlank (symbol k) = false := by decide +kernel
  exact hall n h

-- ================================================================= groups

/-- The bits of the bytes, six at a time. -/
def sextets : Bytes → List Nat
  | [] => []
  | [a] => [a.toNat / 4, a.toNat % 4 * 16]
  | [a, b] =>
      [a.toNat / 4, a.toNat % 4 * 16 + b.toNat / 16, b.toNat % 16 * 4]
  | a :: b :: c :: rest =>
      a.toNat / 4 :: (a.toNat % 4 * 16 + b.toNat / 16)
        :: (b.toNat % 16 * 4 + c.toNat / 64) :: c.toNat % 64
        :: sextets rest

def bytesOf : List Nat → Option Bytes
  | [] => some []
  | [_] => none
  | [p, q] => some [BitVec.ofNat 8 (4 * p + q / 16)]
  | [p, q, r] =>
      some [BitVec.ofNat 8 (4 * p + q / 16),
        BitVec.ofNat 8 (q % 16 * 16 + r / 4)]
  | p :: q :: r :: s :: rest =>
      (bytesOf rest).map fun bs =>
        BitVec.ofNat 8 (4 * p + q / 16)
          :: BitVec.ofNat 8 (q % 16 * 16 + r / 4)
          :: BitVec.ofNat 8 (r % 4 * 64 + s) :: bs

theorem ofNat_of_eq {b : BitVec 8} {n : Nat} (h : n = b.toNat) :
    BitVec.ofNat 8 n = b := by
  rw [h, BitVec.ofNat_toNat, BitVec.setWidth_eq]

theorem sextets_lt (bs : Bytes) : ∀ n ∈ sextets bs, n < 64 := by
  induction bs using sextets.induct with
  | case1 =>
      intro n hn
      cases hn
  | case2 a =>
      have := a.isLt
      intro n hn
      simp only [sextets, List.mem_cons, List.not_mem_nil, or_false] at hn
      omega
  | case3 a b =>
      have := a.isLt
      have := b.isLt
      intro n hn
      simp only [sextets, List.mem_cons, List.not_mem_nil, or_false] at hn
      omega
  | case4 a b c rest ih =>
      have := a.isLt
      have := b.isLt
      have := c.isLt
      intro n hn
      simp only [sextets, List.mem_cons] at hn
      rcases hn with hn | hn | hn | hn | hn
      · omega
      · omega
      · omega
      · omega
      · exact ih n hn

/-- No group is of one symbol. -/
theorem length_sextets (bs : Bytes) : (sextets bs).length % 4 ≠ 1 := by
  induction bs using sextets.induct with
  | case1 => exact Nat.zero_ne_one
  | case2 a => exact Nat.succ_succ_ne_one 0
  | case3 a b => exact Nat.succ_succ_ne_one 1
  | case4 a b c rest ih =>
      simp only [sextets, List.length_cons]
      omega

theorem bytesOf_sextets (bs : Bytes) : bytesOf (sextets bs) = some bs := by
  induction bs using sextets.induct with
  | case1 => rfl
  | case2 a =>
      have := a.isLt
      rw [sextets, bytesOf, ofNat_of_eq (b := a) (by omega)]
  | case3 a b =>
      have := a.isLt
      have := b.isLt
      rw [sextets, bytesOf, ofNat_of_eq (b := a) (by omega),
        ofNat_of_eq (b := b) (by omega)]
  | case4 a b c rest ih =>
      have := a.isLt
      have := b.isLt
      have := c.isLt
      rw [sextets, bytesOf, ih, Option.map_some,
        ofNat_of_eq (b := a) (by omega), ofNat_of_eq (b := b) (by omega),
        ofNat_of_eq (b := c) (by omega)]

-- ================================================================ padding

def unpadded (bs : Bytes) : Text := (sextets bs).map symbol

/-- What is missing to a multiple of four. -/
def missing (len : Nat) : Nat := (4 - len % 4) % 4

/-- Filled up with the sign of padding. -/
def pad (cs : Text) : Text := cs ++ List.replicate (missing cs.length) '='

def encode (bs : Bytes) : Text := pad (unpadded bs)

def dropPad (cs : Text) : Text :=
  if cs.getLast? = some '=' then cs.dropLast else cs

/-- One or two signs of padding, where they make the length right. -/
def stripPadding (cs : Text) : Text :=
  if cs.length % 4 = 0 then dropPad (dropPad cs) else cs

def decode (cs : Text) : Option Bytes :=
  ((stripPadding (cs.filter fun c => !isBlank c)).mapM value).bind
    bytesOf

theorem dropPad_self {cs : Text} (h : ∀ c ∈ cs, c ≠ '=') :
    dropPad cs = cs := by
  unfold dropPad
  rw [if_neg]
  intro hlast
  exact h '=' (List.mem_of_getLast? hlast) rfl

theorem dropPad_concat (cs : Text) : dropPad (cs ++ ['=']) = cs := by
  unfold dropPad
  rw [List.getLast?_concat, if_pos rfl, List.dropLast_concat]

/-- Padding is taken off again. -/
theorem stripPadding_pad {cs : Text} (h : ∀ c ∈ cs, c ≠ '=')
    (hlen : cs.length % 4 ≠ 1) : stripPadding (pad cs) = cs := by
  have hwhole : (pad cs).length % 4 = 0 := by
    unfold pad missing
    rw [List.length_append, List.length_replicate]
    omega
  have hmissing : missing cs.length = 0 ∨ missing cs.length = 1
      ∨ missing cs.length = 2 := by
    unfold missing
    omega
  unfold stripPadding
  rw [if_pos hwhole, pad]
  rcases hmissing with hm | hm | hm
  · rw [hm, List.replicate_zero, List.append_nil, dropPad_self h,
      dropPad_self h]
  · rw [hm]
    show dropPad (dropPad (cs ++ ['='])) = cs
    rw [dropPad_concat, dropPad_self h]
  · rw [hm]
    show dropPad (dropPad (cs ++ (['='] ++ ['=']))) = cs
    rw [← List.append_assoc, dropPad_concat, dropPad_concat]

theorem mapM_value {ns : List Nat} (h : ∀ n ∈ ns, n < 64) :
    (ns.map symbol).mapM value = some ns := by
  induction ns with
  | nil => rfl
  | cons n ns ih =>
      rw [List.map_cons, List.mapM_cons, value_symbol (h n List.mem_cons_self),
        ih fun m hm => h m (List.mem_cons_of_mem n hm)]
      rfl

theorem unpadded_plain (bs : Bytes) :
    ∀ c ∈ unpadded bs, c ≠ '=' ∧ isBlank c = false := by
  intro c hc
  obtain ⟨n, hn, rfl⟩ := List.mem_map.mp hc
  exact symbol_plain (sextets_lt bs n hn)

/-- What is written reads back. -/
theorem decode_encode (bs : Bytes) : decode (encode bs) = some bs := by
  have hplain : ∀ c ∈ encode bs, (!isBlank c) = true := by
    intro c hc
    rcases List.mem_append.mp hc with hc | hc
    · rw [(unpadded_plain bs c hc).2]
      rfl
    · rw [(List.mem_replicate.mp hc).2]
      decide
  have hlen : (unpadded bs).length % 4 ≠ 1 := by
    rw [unpadded, List.length_map]
    exact length_sextets bs
  unfold decode
  rw [List.filter_eq_self.mpr hplain, encode,
    stripPadding_pad (fun c hc => (unpadded_plain bs c hc).1) hlen,
    unpadded, mapM_value (sextets_lt bs)]
  exact bytesOf_sextets bs

end Base64
