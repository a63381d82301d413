/-
What the two checks of a coinbase tail establish, and of which tails.

# Where a tail starts

Both checks take the first byte for the output count. On such a tail they
do what they say: a derived tail keeps its parent's outputs
(`derived_keeps_outputs`), and the script compared is that of output 1
(`vout1_script_found`). The second half of a coinbase as the stratum
server cuts it begins with the input's sequence, whose first byte is no
count, so neither check accepts one of those (`own_coinbase_refused`).
-/
import M1n3Protocol.Lib.CoinbaseTail
import M1n3Protocol.Proofs.Coinbase
import M1n3Protocol.Stratum.CoinbaseWire

namespace M1n3Protocol

open BitcoinTx Checked Reader

-- ====================================================== the derived tail

/-- An accepted derived tail counts more outputs. -/
theorem verifyDerivedCoinbase_counts {p d : Bytes} {u : Unit}
    (hok : verifyDerivedCoinbase p d = .ok u) :
    ∃ n m, readByteVarint p 0 = .ok n ∧ readByteVarint d 0 = .ok m ∧ n < m := by
  simp only [verifyDerivedCoinbase, bind_eq_ok, require_eq_ok] at hok
  obtain ⟨-, -, -, -, n, hn, m, hm, -, hlt, -⟩ := hok
  exact ⟨n, m, hn, hm, hlt⟩

/-- The count byte is the count. -/
theorem readByteVarint_count {bs mid : Bytes} {n m : Nat}
    (hn : (number 1).read bs = some (n, mid))
    (hm : readByteVarint bs 0 = .ok m) : n = m ∧ mid = bs.drop 1 := by
  obtain ⟨hlt, rfl⟩ := number_eq_some.mp hn
  have hread : readByteVarint (leBytes 1 n ++ mid) 0
      = if BitVec.ofNat 8 n < 0xfd then .ok (BitVec.ofNat 8 n).toNat
        else .error (.btcMath .EUnsupportedVarintWidth) :=
    readByteVarint_within (Nat.zero_lt_succ _)
  rw [hread] at hm
  refine ⟨?_, rfl⟩
  split at hm
  case isTrue =>
      injection hm with hm
      rw [← hm, BitVec.toNat_ofNat]
      exact (Nat.mod_eq_of_lt hlt).symm
  case isFalse => cases hm

/-- Whatever way script lengths are read: an accepted derived tail has its
parent's outputs first, more of its own, and the parent's locktime. -/
theorem derived_keeps_outputs {parent derived : Bytes} {size : Reader Nat}
    {p d : Tail} {u : Unit}
    (hok : verifyDerivedCoinbase parent derived = .ok u)
    (hparent : (tail (number 1) size).parse parent = some p)
    (hderived : (tail (number 1) size).parse derived = some d) :
    p.outputs <+: d.outputs ∧ p.outputs.length < d.outputs.length
      ∧ d.lockTime = p.lockTime := by
  obtain ⟨hlen, hle, hvouts, hlock⟩ := verifyDerivedCoinbase_ok hok
  obtain ⟨n, m, hn, hm, hlt⟩ := verifyDerivedCoinbase_counts hok
  obtain ⟨pn, pmid, plock, hpn, hpouts, hplock, hpt⟩ := tail_parse hparent
  obtain ⟨dn, dmid, dlock, hdn, hdouts, hdlock, hdt⟩ := tail_parse hderived
  obtain ⟨rfl, hpmid⟩ := readByteVarint_count hpn hn
  obtain ⟨rfl, hdmid⟩ := readByteVarint_count hdn hm
  -- what was read of the parent's outputs is read of the derived ones too
  obtain ⟨used, hused, hagain⟩ := ((txOut size).many pn).exact hpouts
  obtain ⟨dused, hdused, -⟩ := ((txOut size).many dn).exact hdouts
  have hplen := congrArg List.length hused
  have hdlen := congrArg List.length hdused
  rw [hpmid, List.length_drop, List.length_append, hplock,
    length_leBytes] at hplen
  rw [hdmid, List.length_drop, List.length_append, hdlock,
    length_leBytes] at hdlen
  have hkeep : dmid = used ++ dmid.drop used.length := by
    rw [← hpmid, ← hdmid, hused, List.take_left' (by omega)] at hvouts
    rw [show parent.length - 5 = used.length by omega] at hvouts
    conv_lhs => rw [← List.take_append_drop used.length dmid]
    rw [← hvouts]
  have hfirst : p.outputs <+: d.outputs := by
    have hread := hagain (dmid.drop used.length)
    rw [← hkeep] at hread
    exact many_prefix (Nat.le_of_lt hlt) hread hdouts
  refine ⟨hfirst, ?_, ?_⟩
  · rw [many_length hpouts, many_length hdouts]
    exact hlt
  · have hpend : parent.drop (parent.length - 4) = leBytes 4 p.lockTime := by
      rw [show parent.length - 4 = 1 + used.length by omega, ← List.drop_drop,
        ← hpmid, hused, List.drop_left, hplock]
    have hdend : derived.drop (derived.length - 4)
        = leBytes 4 d.lockTime := by
      rw [show derived.length - 4 = 1 + dused.length by omega,
        ← List.drop_drop, ← hdmid, hdused, List.drop_left, hdlock]
    rw [hpend, hdend, List.take_of_length_le (by rw [length_leBytes]),
      List.take_of_length_le (by rw [length_leBytes])] at hlock
    have hnat := congrArg leNat hlock
    rw [leNat_leBytes hpt, leNat_leBytes hdt] at hnat
    exact hnat.symm

/-- A tail of one output, and of two with the first kept. -/
def oneOutput : Bytes := [1, 5, 0, 0, 0, 0, 0, 0, 0, 1, 0x51, 7, 0, 0, 0]

def twoOutputs : Bytes :=
  [2, 5, 0, 0, 0, 0, 0, 0, 0, 1, 0x51, 9, 0, 0, 0, 0, 0, 0, 0, 2, 0x6a, 0x52,
   7, 0, 0, 0]

theorem derived_keeps_outputs_two :
    verifyDerivedCoinbase oneOutput twoOutputs = .ok ()
      ∧ [(⟨5, [0x51]⟩ : TxOut)] <+: [⟨5, [0x51]⟩, ⟨9, [0x6a, 0x52]⟩] := by
  have hok : verifyDerivedCoinbase oneOutput twoOutputs = .ok () := by
    decide
  have hparent : (tail (number 1) varint).parse oneOutput
      = some ⟨[⟨5, [0x51]⟩], 7⟩ := by
    decide
  have hderived : (tail (number 1) varint).parse twoOutputs
      = some ⟨[⟨5, [0x51]⟩, ⟨9, [0x6a, 0x52]⟩], 7⟩ := by
    decide
  exact ⟨hok, (derived_keeps_outputs hok hparent hderived).1⟩

-- ========================================================= the second output

/-- What the check is: two script lengths lead to a slice. -/
theorem verifyVout1Script_ok {c expected : Bytes} :
    verifyVout1Script c expected = .ok ()
      ↔ ∃ n l0 l1, 23 ≤ c.length ∧ readByteVarint c 0 = .ok n ∧ 2 ≤ n
        ∧ readByteVarint c 9 = .ok l0 ∧ 10 + l0 + 9 ≤ c.length
        ∧ readByteVarint c (10 + l0 + 8) = .ok l1
        ∧ 10 + l0 + 9 + l1 ≤ c.length
        ∧ (c.drop (10 + l0 + 9)).take l1 = expected := by
  simp only [verifyVout1Script, bind_eq_ok, require_eq_ok]
  constructor
  · rintro ⟨-, hlen, n, hn, -, hmany, l0, hl0, -, hfit0, l1, hl1, -, hfit1, -,
      hsize, hsame⟩
    refine ⟨n, l0, l1, hlen, hn, hmany, hl0, hfit0, hl1, hfit1, ?_⟩
    have hslice := sameBytes_ok hsame
    rw [List.drop_zero, List.take_length] at hslice
    rw [hsize]
    exact hslice
  · rintro ⟨n, l0, l1, hlen, hn, hmany, hl0, hfit0, hl1, hfit1, hslice⟩
    have hsize : l1 = expected.length := by
      rw [← hslice, List.length_take, List.length_drop]
      omega
    refine ⟨(), hlen, n, hn, (), hmany, l0, hl0, (), hfit0, l1, hl1, (),
      hfit1, (), hsize, ?_⟩
    rw [sameBytes_within (by omega) (by omega), List.drop_zero,
      List.take_length, ← hsize, if_pos hslice]

/-- The errors of the check. -/
def vout1Errors : List BtcMathError :=
  [.ECoinbaseTooShort, .EUnsupportedVarintWidth, .ECoinbaseMissingVout1,
   .EWrongVout1Script]

/-- A byte within the string is no length only where it begins a longer
form. -/
theorem readByteVarint_error {c : Bytes} {i : Nat} {e : Abort}
    (h : i < c.length) (herr : readByteVarint c i = .error e) :
    e = .btcMath .EUnsupportedVarintWidth := by
  rw [readByteVarint_within h] at herr
  split at herr
  case isTrue => cases herr
  case isFalse =>
      injection herr with herr
      exact herr.symm

/-- Whatever the bytes are, the check stops with an error of its own: it
reads no byte behind the end. -/
theorem verifyVout1Script_error {c expected : Bytes} {a : Abort}
    (h : verifyVout1Script c expected = .error a) :
    ∃ e ∈ vout1Errors, a = .btcMath e := by
  simp only [verifyVout1Script, bind_eq_error, require_eq_error,
    require_eq_ok, exists_and_left, exists_const] at h
  rcases h with ⟨-, rfl⟩ | ⟨hlen, h⟩
  · exact ⟨_, by decide, rfl⟩
  rcases h with h | ⟨n, -, h⟩
  · exact ⟨_, by decide, readByteVarint_error (by omega) h⟩
  rcases h with ⟨-, rfl⟩ | ⟨-, h⟩
  · exact ⟨_, by decide, rfl⟩
  rcases h with h | ⟨l0, hl0, h⟩
  · exact ⟨_, by decide, readByteVarint_error (by omega) h⟩
  rcases h with ⟨-, rfl⟩ | ⟨hfit0, h⟩
  · exact ⟨_, by decide, rfl⟩
  rcases h with h | ⟨l1, hl1, h⟩
  · exact ⟨_, by decide, readByteVarint_error (by omega) h⟩
  rcases h with ⟨-, rfl⟩ | ⟨hfit1, h⟩
  · exact ⟨_, by decide, rfl⟩
  rcases h with ⟨-, rfl⟩ | ⟨hsize, h⟩
  · exact ⟨_, by decide, rfl⟩
  rw [sameBytes_within (by omega) (by omega)] at h
  split at h
  case isTrue => cases h
  case isFalse =>
      injection h with h
      exact ⟨_, by decide, h.symm⟩

/-- A length byte is read where it stands. -/
theorem readByteVarint_append (front : Bytes) {rest : Bytes} {n i : Nat}
    (hi : front.length = i) (hn : n < 0xfd) :
    readByteVarint (front ++ BitVec.ofNat 8 n :: rest) i = .ok n := by
  subst hi
  have hlt : front.length < (front ++ BitVec.ofNat 8 n :: rest).length := by
    rw [List.length_append, List.length_cons]
    omega
  have hbyte : (BitVec.ofNat 8 n).toNat = n :=
    Nat.mod_eq_of_lt (by omega)
  rw [readByteVarint_within hlt, List.getElem_append_right (Nat.le_refl _)]
  simp only [Nat.sub_self, List.getElem_cons_zero, BitVec.lt_def]
  rw [hbyte]
  exact if_pos hn

theorem shortSize_eq_some {bs rest : Bytes} {n : Nat} :
    shortSize.read bs = some (n, rest)
      ↔ n < 0xfd ∧ bs = BitVec.ofNat 8 n :: rest := by
  unfold shortSize
  rw [guard_eq_some, number_eq_some]
  constructor
  · rintro ⟨⟨-, hbs⟩, hn⟩
    exact ⟨hn, hbs⟩
  · rintro ⟨hn, hbs⟩
    exact ⟨⟨by omega, hbs⟩, hn⟩

/-- An output with a script of one length byte. -/
theorem shortOut_eq_some {bs rest : Bytes} {o : TxOut}
    (h : (txOut shortSize).read bs = some (o, rest)) :
    o.scriptPubKey.length < 0xfd ∧ bs = leBytes 8 o.value
      ++ BitVec.ofNat 8 o.scriptPubKey.length :: (o.scriptPubKey ++ rest) := by
  obtain ⟨mid, n, -, hsize, rfl, rfl⟩ := txOut_eq_some.mp h
  obtain ⟨hn, rfl⟩ := shortSize_eq_some.mp hsize
  exact ⟨hn, rfl⟩

/-- The count of a tail is its first byte. -/
theorem shortTail_count {c : Bytes} {t : Tail}
    (h : (tail shortSize shortSize).parse c = some t) :
    readByteVarint c 0 = .ok t.outputs.length := by
  obtain ⟨n, mid, lock, hn, houts, -, -⟩ := tail_parse h
  obtain ⟨hcount, rfl⟩ := shortSize_eq_some.mp hn
  rw [many_length houts]
  exact readByteVarint_append [] rfl hcount

/-- The bytes of a tail with two outputs and more, as the check walks
them. -/
theorem shortTail_parse {c : Bytes} {o0 o1 : TxOut} {os : List TxOut}
    {lockTime : Nat} (h : (tail shortSize shortSize).parse c
      = some ⟨o0 :: o1 :: os, lockTime⟩) :
    readByteVarint c 9 = .ok o0.scriptPubKey.length
      ∧ readByteVarint c (10 + o0.scriptPubKey.length + 8)
        = .ok o1.scriptPubKey.length
      ∧ 10 + o0.scriptPubKey.length + 9 + o1.scriptPubKey.length + 4
        ≤ c.length
      ∧ (c.drop (10 + o0.scriptPubKey.length + 9)).take
        o1.scriptPubKey.length = o1.scriptPubKey := by
  obtain ⟨n, mid, lock, hn, houts, hlock, -⟩ := tail_parse h
  obtain ⟨hcount, rfl⟩ := shortSize_eq_some.mp hn
  have hlen := many_length houts
  subst hlen
  obtain ⟨x, mid1, xs, hx, houts, heq⟩ := many_succ_eq_some.mp houts
  cases heq
  obtain ⟨y, mid2, ys, hy, hrest, heq⟩ := many_succ_eq_some.mp houts
  cases heq
  obtain ⟨hl0, rfl⟩ := shortOut_eq_some hx
  obtain ⟨hl1, rfl⟩ := shortOut_eq_some hy
  obtain ⟨used, rfl, -⟩ := ((txOut shortSize).many os.length).exact hrest
  have hlocklen : lock.length = 4 := by
    rw [hlock, length_leBytes]
  -- the bytes before the second script
  let head := BitVec.ofNat 8 (os.length + 2) :: leBytes 8 o0.value
    ++ BitVec.ofNat 8 o0.scriptPubKey.length :: o0.scriptPubKey
    ++ leBytes 8 o1.value
  have hhead : head.length = 10 + o0.scriptPubKey.length + 8 := by
    simp [head]
    omega
  refine ⟨?_, ?_, ?_, ?_⟩
  · exact readByteVarint_append
      (BitVec.ofNat 8 (os.length + 2) :: leBytes 8 o0.value) (by simp) hl0
  · have hl1read : readByteVarint
        (head ++ BitVec.ofNat 8 o1.scriptPubKey.length
          :: (o1.scriptPubKey ++ (used ++ lock)))
        (10 + o0.scriptPubKey.length + 8) = .ok o1.scriptPubKey.length :=
      readByteVarint_append head hhead hl1
    simpa [head] using hl1read
  · simp
    omega
  · have hdrop : (head ++ [BitVec.ofNat 8 o1.scriptPubKey.length]
        ++ (o1.scriptPubKey ++ (used ++ lock))).drop
          (10 + o0.scriptPubKey.length + 9)
        = o1.scriptPubKey ++ (used ++ lock) := by
      apply List.drop_left'
      simp [hhead]
    have htake := congrArg (List.take o1.scriptPubKey.length) hdrop
    rw [List.take_left] at htake
    simpa [head] using htake

theorem two_of_length {α : Type} {xs : List α} (h : 2 ≤ xs.length) :
    ∃ x y ys, xs = x :: y :: ys := by
  cases xs with
  | nil => cases h
  | cons x xs =>
      cases xs with
      | nil => exact absurd h (by simp)
      | cons y ys => exact ⟨x, y, ys, rfl⟩

/-- On a tail of one-byte sizes the check compares the script of output
1; on other bytes it stops with an error of its own or passes. -/
theorem vout1_script_found :
    (∀ (c expected : Bytes) (t : Tail),
      (tail shortSize shortSize).parse c = some t →
      (verifyVout1Script c expected = .ok ()
        ↔ 2 ≤ t.outputs.length
          ∧ t.outputs[1]?.map TxOut.scriptPubKey = some expected))
    ∧ ∀ c expected : Bytes, verifyVout1Script c expected = .ok ()
      ∨ ∃ e ∈ vout1Errors, verifyVout1Script c expected
        = .error (.btcMath e) := by
  constructor
  · intro c expected t h
    have hcount := shortTail_count h
    rw [verifyVout1Script_ok]
    constructor
    · rintro ⟨n, l0, l1, -, hn, hmany, hl0, -, hl1, -, hslice⟩
      rw [hcount] at hn
      cases hn
      obtain ⟨o0, o1, os, houts⟩ := two_of_length hmany
      obtain ⟨outputs, lockTime⟩ := t
      obtain rfl : outputs = o0 :: o1 :: os := houts
      obtain ⟨h0, h1, -, hscript⟩ := shortTail_parse h
      rw [h0] at hl0
      cases hl0
      rw [h1] at hl1
      cases hl1
      refine ⟨hmany, ?_⟩
      rw [← hslice, hscript]
      rfl
    · rintro ⟨hmany, hexpected⟩
      obtain ⟨o0, o1, os, houts⟩ := two_of_length hmany
      obtain ⟨outputs, lockTime⟩ := t
      obtain rfl : outputs = o0 :: o1 :: os := houts
      obtain ⟨h0, h1, hlen, hscript⟩ := shortTail_parse h
      cases hexpected
      exact ⟨_, _, _, by omega, hcount, hmany, h0, by omega, h1, by omega,
        hscript⟩
  · intro c expected
    cases h : verifyVout1Script c expected with
    | ok => exact Or.inl rfl
    | error a =>
        obtain ⟨e, he, rfl⟩ := verifyVout1Script_error h
        exact Or.inr ⟨e, he, rfl⟩

theorem vout1_script_found_two :
    verifyVout1Script twoOutputs [0x6a, 0x52] = .ok () := by
  have htail : (tail shortSize shortSize).parse twoOutputs
      = some ⟨[⟨5, [0x51]⟩, ⟨9, [0x6a, 0x52]⟩], 7⟩ := by
    decide
  exact (vout1_script_found.1 _ _ _ htail).mpr ⟨by decide, rfl⟩

-- ================================================= the server's own tails

/-- The second half of a coinbase with outputs inserted before the
locktime, and counted. -/
def ExtendedBy (coinbase2 : Bytes) (more : List TxOut) (derived : Bytes) :
    Prop :=
  ∃ (sequence outputs lockTime : Bytes) (count : BitVec 8),
    sequence.length = 4 ∧ lockTime.length = 4
      ∧ coinbase2 = sequence ++ count :: (outputs ++ lockTime)
      ∧ derived = sequence
        ++ (compactSize.write (count.toNat + more.length)
          ++ (outputs ++ (outputBytes more ++ lockTime)))

/-- Both checks take a coinbase the server makes: each extension of it, and
the script of its second output. -/
def ChecksAccept (template : BlockTemplate)
    (poolAddressScript coinbase2 : Bytes) : Prop :=
  (∀ more derived, more ≠ [] → (∀ o ∈ more, TxOut.codec.valid o) →
    ExtendedBy coinbase2 more derived →
    verifyDerivedCoinbase coinbase2 derived = .ok ())
  ∧ ∀ expected, (coinbaseTx template poolAddressScript []).outputs[1]?.map
      TxOut.scriptPubKey = some expected →
    verifyVout1Script coinbase2 expected = .ok ()

/-- The second half begins with the sequence of the one input. -/
theorem createCoinbase_tail {template : BlockTemplate}
    {poolAddressScript coinbase1 coinbase2 : Bytes}
    (h : createCoinbase template poolAddressScript
      = some (coinbase1, coinbase2)) :
    ∃ (count : BitVec 8) (outputs : Bytes), coinbase2
      = List.replicate 4 0xff ++ count :: (outputs ++ List.replicate 4 0) := by
  obtain ⟨commitment, -, h⟩ := Option.bind_eq_some_iff.mp h
  cases h
  refine ⟨if template.hasWitnessCommitment then 2 else 1,
    leBytes 8 template.coinbasevalue.toNat
    ++ encodeScriptLen (payoutScript poolAddressScript).length
    ++ payoutScript poolAddressScript ++ commitment, ?_⟩
  simp only [List.append_assoc, List.cons_append, List.nil_append]

theorem readByteVarint_sequence {rest : Bytes} :
    readByteVarint (0xff :: rest) 0
      = .error (.btcMath .EUnsupportedVarintWidth) := by
  rw [readByteVarint_within (Nat.zero_lt_succ _)]
  exact if_neg (show ¬(0xff : BitVec 8) < 0xfd by decide)

/-- Both ends are long enough to be looked at. -/
theorem ExtendedBy.five_le {coinbase2 derived : Bytes} {more : List TxOut}
    (h : ExtendedBy coinbase2 more derived) :
    5 ≤ coinbase2.length ∧ 5 ≤ derived.length := by
  obtain ⟨sequence, outs, lockTime, n, hs, hl, hc, rfl⟩ := h
  have hpos : 0 < (compactSize.write (n.toNat + more.length)).length := by
    rw [compactSize_write]
    split
    case isTrue => simp
    case isFalse => split <;> simp
  rw [hc]
  simp only [List.length_append, List.length_cons]
  omega

/-- No coinbase of the server passes either check, whatever it pays and
whatever is appended to it: its second half begins with a sequence, and
`0xff` is no count of one byte. -/
theorem own_coinbase_refused {template : BlockTemplate}
    {poolAddressScript coinbase1 coinbase2 : Bytes}
    (h : createCoinbase template poolAddressScript
      = some (coinbase1, coinbase2)) :
    (∀ more derived, ExtendedBy coinbase2 more derived →
      verifyDerivedCoinbase coinbase2 derived
        = .error (.btcMath .EUnsupportedVarintWidth))
    ∧ (∀ expected, verifyVout1Script coinbase2 expected
      = .error (.btcMath (if coinbase2.length < 23 then .ECoinbaseTooShort
          else .EUnsupportedVarintWidth)))
    ∧ ¬ ChecksAccept template poolAddressScript coinbase2 := by
  obtain ⟨count, outputs, htail⟩ := createCoinbase_tail h
  have hfirst : readByteVarint coinbase2 0
      = .error (.btcMath .EUnsupportedVarintWidth) := by
    rw [htail]
    exact readByteVarint_sequence
  have hderived : ∀ more derived, ExtendedBy coinbase2 more derived →
      verifyDerivedCoinbase coinbase2 derived
        = .error (.btcMath .EUnsupportedVarintWidth) := by
    intro more derived hext
    obtain ⟨hlen, hdlen⟩ := hext.five_le
    unfold verifyDerivedCoinbase
    dsimp only
    rw [require_of hlen, require_of hdlen, hfirst]
    rfl
  refine ⟨hderived, ?_, ?_⟩
  · intro expected
    unfold verifyVout1Script
    dsimp only
    by_cases hlen : 23 ≤ coinbase2.length
    · rw [require_of hlen, hfirst, if_neg (Nat.not_lt.mpr hlen)]
      rfl
    · rw [if_pos (Nat.lt_of_not_le hlen), require, if_neg hlen]
      rfl
  · intro haccept
    have hext : ExtendedBy coinbase2 [⟨0, []⟩] _ :=
      ⟨_, _, _, _, by simp, by simp, htail, rfl⟩
    have hvalid : ∀ o ∈ [(⟨0, []⟩ : TxOut)], TxOut.codec.valid o := by
      intro o ho
      obtain rfl := List.mem_singleton.mp ho
      rw [TxOut.codec_valid, Codec.number_valid, compactSize_valid]
      decide
    have hok := haccept.1 _ _ (by simp) hvalid hext
    rw [hderived _ _ hext] at hok
    cases hok

/-- A template whose commitment output pays a script of two bytes. -/
def twoOutputTemplate : BlockTemplate where
  version := 0x20000000
  previousblockhash := List.replicate 64 '0'
  transactions := []
  coinbasevalue := 312500000
  mintime := 0
  curtime := 0
  bits := "1d00ffff".toList
  height := 840000
  defaultWitnessCommitment := some "6a51".toList

def twoOutputCoinbase2 : Bytes :=
  List.replicate 4 0xff ++ 2 ::
    ([0x20, 0x5f, 0xa0, 0x12, 0, 0, 0, 0, 1, 0x51,
      0, 0, 0, 0, 0, 0, 0, 0, 2, 0x6a, 0x51] ++ List.replicate 4 0)

/-- One more output, paying 7. -/
def threeOutputCoinbase2 : Bytes :=
  List.replicate 4 0xff ++ [3, 0x20, 0x5f, 0xa0, 0x12, 0, 0, 0, 0, 1, 0x51,
      0, 0, 0, 0, 0, 0, 0, 0, 2, 0x6a, 0x51,
      7, 0, 0, 0, 0, 0, 0, 0, 1, 0x52] ++ List.replicate 4 0

theorem threeOutputCoinbase2_extends :
    ExtendedBy twoOutputCoinbase2 [⟨7, [0x52]⟩] threeOutputCoinbase2 :=
  ⟨_, _, _, _, rfl, rfl, rfl, by decide +kernel⟩

/-- The second output carries the expected script, and the extension is of
one output; neither is accepted. -/
theorem own_coinbase_aborts :
    createCoinbase twoOutputTemplate [0x51]
        = some (coinbase1 twoOutputTemplate, twoOutputCoinbase2)
      ∧ (coinbaseTx twoOutputTemplate [0x51] []).outputs[1]?.map
        TxOut.scriptPubKey = some [0x6a, 0x51]
      ∧ ExtendedBy twoOutputCoinbase2 [⟨7, [0x52]⟩] threeOutputCoinbase2
      ∧ verifyDerivedCoinbase twoOutputCoinbase2 threeOutputCoinbase2
        = .error (.btcMath .EUnsupportedVarintWidth)
      ∧ verifyVout1Script twoOutputCoinbase2 [0x6a, 0x51]
        = .error (.btcMath .EUnsupportedVarintWidth) :=
  ⟨by decide +kernel, by decide +kernel, threeOutputCoinbase2_extends,
    by decide, by decide⟩

theorem own_coinbase_refused_two :
    ¬ ChecksAccept twoOutputTemplate [0x51] twoOutputCoinbase2 := by
  have hcreate : createCoinbase twoOutputTemplate [0x51]
      = some (coinbase1 twoOutputTemplate, twoOutputCoinbase2) := by
    decide +kernel
  exact (own_coinbase_refused hcreate).2.2

end M1n3Protocol
