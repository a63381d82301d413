/-
The end of a coinbase as a reader: outputs behind their count, and the
locktime.

# Sizes

A compact size may be written longer than it has to be. Bitcoin refuses
that, and many parsers do not; `varint` takes every form. `shortSize`
takes the forms of one byte only. What is read of a tail depends on
nothing else, so the reader of a size is a parameter.
-/
import M1n3Protocol.Lib.BitcoinTx
import M1n3Protocol.Lib.Reader

namespace BitcoinTx

open Reader

-- ================================================================ the sizes

def varint : Reader Nat :=
  (number 1).bind fun m =>
    if m < 0xfd then pure m
    else if m = 0xfd then number 2
    else if m = 0xfe then number 4
    else number 8

def shortSize : Reader Nat := (number 1).guard (· < 0xfd)

-- ================================================================= the tail

structure Tail where
  outputs : List TxOut
  lockTime : Nat
deriving DecidableEq

variable (count size : Reader Nat)

def txOut : Reader TxOut :=
  (number 8).bind fun value => size.bind fun n =>
    (bytes n).bind fun script => pure ⟨value, script⟩

/-- A count, as many outputs, and the locktime. -/
def tail : Reader Tail :=
  count.bind fun n => ((txOut size).many n).bind fun outputs =>
    (number 4).bind fun lockTime => pure ⟨outputs, lockTime⟩

variable {count size}

theorem txOut_eq_some {bs rest : Bytes} {o : TxOut} :
    (txOut size).read bs = some (o, rest)
      ↔ ∃ mid n, o.value < 256 ^ 8
        ∧ size.read mid = some (n, o.scriptPubKey ++ rest)
        ∧ o.scriptPubKey.length = n ∧ bs = leBytes 8 o.value ++ mid := by
  unfold txOut
  rw [bind_eq_some]
  constructor
  · rintro ⟨value, mid, hvalue, h⟩
    obtain ⟨n, mid', hn, h⟩ := bind_eq_some.mp h
    obtain ⟨script, rest', hscript, h⟩ := bind_eq_some.mp h
    obtain ⟨rfl, rfl⟩ := pure_eq_some.mp h
    obtain ⟨hlen, rfl⟩ := bytes_eq_some.mp hscript
    obtain ⟨hlt, rfl⟩ := number_eq_some.mp hvalue
    exact ⟨mid, n, hlt, hn, hlen, rfl⟩
  · rintro ⟨mid, n, hlt, hn, hlen, rfl⟩
    refine ⟨o.value, mid, number_eq_some.mpr ⟨hlt, rfl⟩, ?_⟩
    refine bind_eq_some.mpr ⟨n, o.scriptPubKey ++ rest, hn, ?_⟩
    exact bind_eq_some.mpr ⟨_, rest, bytes_eq_some.mpr ⟨hlen, rfl⟩, rfl⟩

/-- The outputs are between the count and the last four bytes. -/
theorem tail_parse {bs : Bytes} {t : Tail}
    (h : (tail count size).parse bs = some t) :
    ∃ n mid lock, count.read bs = some (n, mid)
      ∧ ((txOut size).many n).read mid = some (t.outputs, lock)
      ∧ lock = leBytes 4 t.lockTime ∧ t.lockTime < 256 ^ 4 := by
  obtain ⟨n, mid, hn, h⟩ := bind_eq_some.mp (parse_eq_some.mp h)
  obtain ⟨outputs, lock, houtputs, h⟩ := bind_eq_some.mp h
  obtain ⟨lockTime, rest, hlock, h⟩ := bind_eq_some.mp h
  obtain ⟨rfl, rfl⟩ := pure_eq_some.mp h
  obtain ⟨hlt, rfl⟩ := number_eq_some.mp hlock
  exact ⟨n, mid, _, hn, houtputs, List.append_nil _, hlt⟩

end BitcoinTx
