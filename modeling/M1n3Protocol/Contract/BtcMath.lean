/-
`btc_math.move`: the hash, the little-endian writer, and the two checks
of a coinbase tail: that a derived one extends its parent's, and that its
second output pays a given script.

The comparison loops walk two byte vectors side by side from given
offsets (`sameBytes`); what they establish is an equality of slices.
-/
import M1n3Protocol.Contract.Base

namespace M1n3Protocol

open Checked

-- ================================================================ hashing

def sha256d (H : HashFn) (data : Bytes) : Bytes := H.hash (H.hash data)

@[simp] theorem length_sha256d (H : HashFn) (data : Bytes) :
    (sha256d H data).length = 32 :=
  H.length_hash _

/-- `append_u32_le`: the four bytes it pushes. -/
def u32Le (val : U32) : Bytes :=
  [(val &&& 0xFF).setWidth 8, ((val >>> 8) &&& 0xFF).setWidth 8,
   ((val >>> 16) &&& 0xFF).setWidth 8, ((val >>> 24) &&& 0xFF).setWidth 8]

-- ================================================= coinbase derivation

def readByteVarint (buf : Bytes) (offset : Nat) : Except Abort Nat := do
  let b ← borrow buf offset
  require (b < 0xfd) (.btcMath .EUnsupportedVarintWidth)
  return b.toNat

/-- The comparison loop: `n` bytes of `p` from `i` against as many of `d`
from `j`, aborting with `e` at the first difference. -/
def sameBytes (p d : Bytes) (e : BtcMathError) :
    Nat → Nat → Nat → Except Abort Unit
  | 0, _, _ => pure ()
  | n + 1, i, j => do
      let x ← borrow p i
      let y ← borrow d j
      require (x = y) (.btcMath e)
      sameBytes p d e n (i + 1) (j + 1)

def verifyDerivedCoinbase (parentCoinbase2 derivedCoinbase2 : Bytes) :
    Except Abort Unit := do
  let plen := parentCoinbase2.length
  let dlen := derivedCoinbase2.length
  require (5 ≤ plen) (.btcMath .ECoinbaseTooShort)
  require (5 ≤ dlen) (.btcMath .ECoinbaseTooShort)
  let parentN ← readByteVarint parentCoinbase2 0
  let derivedN ← readByteVarint derivedCoinbase2 0
  require (parentN < derivedN) (.btcMath .EDerivedFewerOutputs)
  let parentVoutsLen := plen - 5
  require (1 + parentVoutsLen + 4 ≤ dlen) (.btcMath .ECoinbaseTooShort)
  sameBytes parentCoinbase2 derivedCoinbase2 .EParentVoutsNotPreserved
    parentVoutsLen 1 1
  sameBytes parentCoinbase2 derivedCoinbase2 .ELocktimeMismatch
    4 (plen - 4) (dlen - 4)

/-- The script of output 1 is the expected one. -/
def verifyVout1Script (coinbase2 expectedScript : Bytes) :
    Except Abort Unit := do
  let len := coinbase2.length
  require (23 ≤ len) (.btcMath .ECoinbaseTooShort)
  let n ← readByteVarint coinbase2 0
  require (2 ≤ n) (.btcMath .ECoinbaseMissingVout1)
  let v0ScriptLen ← readByteVarint coinbase2 9
  let v1ValueOffset := 10 + v0ScriptLen
  require (v1ValueOffset + 8 + 1 ≤ len) (.btcMath .ECoinbaseTooShort)
  let v1ScriptLen ← readByteVarint coinbase2 (v1ValueOffset + 8)
  let v1ScriptOffset := v1ValueOffset + 9
  require (v1ScriptOffset + v1ScriptLen ≤ len) (.btcMath .ECoinbaseTooShort)
  let expectedLen := expectedScript.length
  require (v1ScriptLen = expectedLen) (.btcMath .EWrongVout1Script)
  sameBytes coinbase2 expectedScript .EWrongVout1Script
    expectedLen v1ScriptOffset 0

-- ======================================================= what they do

/-- A comparison that passes has compared equal slices. -/
theorem sameBytes_ok {p d : Bytes} {e : BtcMathError} :
    ∀ {n i j : Nat} {u : Unit}, sameBytes p d e n i j = .ok u →
      (p.drop i).take n = (d.drop j).take n := by
  intro n
  induction n with
  | zero => intro i j u _; simp
  | succ n ih =>
      intro i j u hok
      simp only [sameBytes, bind_eq_ok, borrow, fetch_eq_ok,
        require_eq_ok] at hok
      obtain ⟨x, hx, y, hy, -, hxy, hrest⟩ := hok
      obtain ⟨hi, hxi⟩ := List.getElem?_eq_some_iff.mp hx
      obtain ⟨hj, hyj⟩ := List.getElem?_eq_some_iff.mp hy
      rw [List.drop_eq_getElem_cons hi, List.drop_eq_getElem_cons hj,
        List.take_succ_cons, List.take_succ_cons, hxi, hyj, hxy, ih hrest]

/-- Within both vectors the comparison reads no byte out of range. -/
theorem sameBytes_within {p d : Bytes} {e : BtcMathError} :
    ∀ {n i j : Nat}, i + n ≤ p.length → j + n ≤ d.length →
      sameBytes p d e n i j = if (p.drop i).take n = (d.drop j).take n
        then .ok () else .error (.btcMath e) := by
  intro n
  induction n with
  | zero =>
      intro i j _ _
      rw [List.take_zero, List.take_zero, if_pos rfl]
      rfl
  | succ n ih =>
      intro i j hi hj
      have hpi : i < p.length := by omega
      have hdj : j < d.length := by omega
      have hstep : sameBytes p d e (n + 1) i j
          = (do
            require (p[i] = d[j]) (.btcMath e)
            sameBytes p d e n (i + 1) (j + 1)) := by
        rw [sameBytes, borrow, borrow, List.getElem?_eq_getElem hpi,
          List.getElem?_eq_getElem hdj]
        rfl
      rw [hstep, ih (by omega) (by omega), List.drop_eq_getElem_cons hpi,
        List.drop_eq_getElem_cons hdj, List.take_succ_cons,
        List.take_succ_cons]
      by_cases hbyte : p[i] = d[j]
      · rw [require_of hbyte, hbyte]
        simp only [List.cons.injEq, true_and]
        rfl
      · rw [if_neg fun h => hbyte (List.cons.inj h).1]
        show (if p[i] = d[j] then _ else _) >>= _ = _
        rw [if_neg hbyte]
        rfl

theorem readByteVarint_within {buf : Bytes} {offset : Nat}
    (h : offset < buf.length) :
    readByteVarint buf offset = if buf[offset] < 0xfd
      then .ok buf[offset].toNat
      else .error (.btcMath .EUnsupportedVarintWidth) := by
  unfold readByteVarint borrow
  rw [List.getElem?_eq_getElem h]
  show (require (buf[offset] < 0xfd) _ >>= fun _ => pure _) = _
  unfold require
  split
  case isTrue => rfl
  case isFalse => rfl

/-- An accepted derived tail carries the parent's bytes between the count
byte and the locktime, at the same offsets. -/
theorem verifyDerivedCoinbase_ok {p d : Bytes} {u : Unit}
    (hok : verifyDerivedCoinbase p d = .ok u) :
    5 ≤ p.length ∧ p.length ≤ d.length
      ∧ (p.drop 1).take (p.length - 5) = (d.drop 1).take (p.length - 5)
      ∧ (p.drop (p.length - 4)).take 4 = (d.drop (d.length - 4)).take 4 := by
  simp only [verifyDerivedCoinbase, bind_eq_ok, require_eq_ok] at hok
  obtain ⟨-, hp, -, -, -, -, -, -, -, -, -, hlen, _, hvouts, hlock⟩ := hok
  exact ⟨hp, by omega, sameBytes_ok hvouts, sameBytes_ok hlock⟩

end M1n3Protocol
