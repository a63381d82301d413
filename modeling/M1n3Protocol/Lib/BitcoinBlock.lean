/-
Bitcoin blocks on the wire: a header, and transactions that may carry
witnesses.

# Two forms of a transaction

The new form has an input count of 0 where the old one has its own, then
a flag byte, and a stack of witness items for each input before the
locktime. So the count decides which form is read, an old transaction has
an input, and a new one with only empty stacks is refused. The id is that
of the old form either way.
-/
import M1n3Protocol.Lib.BitcoinTx

namespace BitcoinTx

open Codec

/-- A transaction as a block carries it: with the stacks of its inputs, or
in the old form. -/
structure WireTx where
  tx : Tx
  witness : Option (List (List Bytes))
deriving DecidableEq

/-- The transaction id under `hash`, in hash order. -/
def WireTx.id (hash : Bytes → Bytes) (w : WireTx) : Bytes :=
  hash (Tx.codec.write w.tx)

-- ============================================================ the old form

/-- What follows version and count. -/
def oldBody (version n : Nat) : Codec WireTx :=
  ((TxIn.codec.many n).pair ((counted TxOut.codec).pair (number 4))).map
    (fun p => ⟨⟨version, p.1, p.2.1, p.2.2⟩, none⟩)
    (fun w => (w.tx.inputs, w.tx.outputs, w.tx.lockTime)) fun _ _ => rfl

-- ============================================================ the new form

/-- A stack for each of `n` inputs, not all of them empty. -/
def witnessStacks (n : Nat) : Codec (List (List Bytes)) :=
  ((counted varBytes).many n).guard fun ws => ∃ w ∈ ws, w ≠ []

/-- What follows inputs and outputs. -/
def newTail (version : Nat) (inputs : List TxIn) (outputs : List TxOut) :
    Codec WireTx :=
  ((witnessStacks inputs.length).pair (number 4)).map
    (fun p => ⟨⟨version, inputs, outputs, p.2⟩, some p.1⟩)
    (fun w => (w.witness.getD [], w.tx.lockTime)) fun _ _ => rfl

/-- What follows version and marker. -/
def newBody (version : Nat) : Codec WireTx :=
  tagged [1] (((counted TxIn.codec).pair (counted TxOut.codec)).andThen
    (fun p => newTail version p.1 p.2)
    (fun w => (w.tx.inputs, w.tx.outputs)) fun p w h => by
      have hforth := h.2
      rw [← hforth])

-- ============================================================ transactions

/-- The count a transaction is written with. -/
def WireTx.count (w : WireTx) : Nat :=
  if w.witness.isSome then 0 else w.tx.inputs.length

def WireTx.body (version n : Nat) : Codec WireTx :=
  if n = 0 then newBody version else oldBody version n

theorem WireTx.key_of_valid (p : Nat × Nat) (w : WireTx)
    (h : (WireTx.body p.1 p.2).valid w) : (w.tx.version, w.count) = p := by
  obtain ⟨version, n⟩ := p
  unfold WireTx.body at h
  dsimp only at h
  split at h
  case isTrue hn =>
      have hforth := (tagged_valid.mp h).2.2
      rw [← hforth, hn]
      rfl
  case isFalse hn =>
      obtain ⟨⟨⟨hlen, -⟩, -⟩, hforth⟩ := h
      rw [← hforth, ← hlen]
      rfl

def WireTx.codec : Codec WireTx :=
  ((number 4).pair compactSize).andThen (fun p => WireTx.body p.1 p.2)
    (fun w => (w.tx.version, w.count)) WireTx.key_of_valid

/-- A transaction with an input, in the old form. -/
theorem WireTx.codec_old {t : Tx} (hin : t.inputs ≠ []) :
    WireTx.codec.write ⟨t, none⟩ = Tx.codec.write t
      ∧ (WireTx.codec.valid ⟨t, none⟩ ↔ Tx.codec.valid t) := by
  have hn : t.inputs.length ≠ 0 := fun h =>
    hin (List.length_eq_zero_iff.mp h)
  have hbody : WireTx.body t.version t.inputs.length
      = oldBody t.version t.inputs.length := if_neg hn
  constructor
  · show ((number 4).write t.version ++ compactSize.write t.inputs.length)
      ++ (WireTx.body t.version t.inputs.length).write ⟨t, none⟩ = _
    rw [hbody, Tx.codec_write, counted_write, List.append_assoc,
      List.append_assoc]
    rfl
  · show ((number 4).valid t.version ∧ compactSize.valid t.inputs.length)
      ∧ (WireTx.body t.version t.inputs.length).valid ⟨t, none⟩ ↔ _
    rw [hbody, Tx.codec_valid, counted_valid]
    constructor
    · rintro ⟨⟨hv, hc⟩, ⟨⟨-, hins⟩, houts, hlock⟩, -⟩
      exact ⟨hv, ⟨hc, hins⟩, houts, hlock⟩
    · rintro ⟨hv, ⟨hc, hins⟩, houts, hlock⟩
      exact ⟨⟨hv, hc⟩, ⟨⟨rfl, hins⟩, houts, hlock⟩, rfl⟩

/-- The new form: marker and flag after the version, the stacks before the
locktime. -/
theorem WireTx.codec_new {t : Tx} {ws : List (List Bytes)} :
    WireTx.codec.write ⟨t, some ws⟩
      = (number 4).write t.version ++ (compactSize.write 0 ++ ([1]
        ++ ((counted TxIn.codec).write t.inputs
          ++ ((counted TxOut.codec).write t.outputs
            ++ ((witnessStacks t.inputs.length).write ws
              ++ (number 4).write t.lockTime)))))
      ∧ ((number 4).valid t.version → (counted TxIn.codec).valid t.inputs →
        (counted TxOut.codec).valid t.outputs →
        (witnessStacks t.inputs.length).valid ws → (number 4).valid t.lockTime →
        WireTx.codec.valid ⟨t, some ws⟩) := by
  constructor
  · show ((number 4).write t.version ++ compactSize.write 0)
      ++ ([1] ++ (((counted TxIn.codec).write t.inputs
          ++ (counted TxOut.codec).write t.outputs)
        ++ ((witnessStacks t.inputs.length).write ws
          ++ (number 4).write t.lockTime))) = _
    simp only [List.append_assoc]
  · intro hv hins houts hws hlock
    have hzero : compactSize.valid 0 := by
      refine ⟨number_valid.mpr (by decide), ?_⟩
      show (sizeAfter 0).valid 0
      rfl
    have hnew : (newBody t.version).valid ⟨t, some ws⟩ :=
      tagged_valid.mpr ⟨⟨hins, houts⟩, ⟨hws, hlock⟩, rfl⟩
    exact ⟨⟨hv, hzero⟩, hnew⟩

-- ================================================================== blocks

structure Block where
  header : Bytes
  txs : List WireTx
deriving DecidableEq

def Block.codec : Codec Block :=
  ((fixed 80).pair (counted WireTx.codec)).map (fun p => ⟨p.1, p.2⟩)
    (fun b => (b.header, b.txs)) fun _ _ => rfl

@[simp] theorem Block.codec_write (b : Block) :
    Block.codec.write b
      = b.header ++ (counted WireTx.codec).write b.txs := rfl

@[simp] theorem Block.codec_valid {b : Block} :
    Block.codec.valid b
      ↔ b.header.length = 80 ∧ (counted WireTx.codec).valid b.txs :=
  and_iff_left rfl

/-- The merkle root a header names. -/
def Block.merkleRoot (b : Block) : Bytes := (b.header.drop 36).take 32

end BitcoinTx
