/-
Bitcoin transactions on the wire: the serialization whose double SHA-256
is the transaction id.

# Which parser

A compact size is read as Bitcoin Core reads one: the shortest form only,
and no count above `maxSize`. The witness serialization differs from this
one where the input count is 0, so a transaction with an input, as every
coinbase is, reads the same in both.

# Coinbases cut in two

`openLength` reads a string that stops inside the input script of a
coinbase, and `parse_cut` is what the rest of the string then says: the
script is filled first, and only what is left is sequence, outputs and
locktime.
-/
import M1n3Protocol.Lib.Codec

namespace BitcoinTx

open Codec

-- ============================================================ compact size

def maxSize : Nat := 0x02000000

/-- The byte a compact size starts with: itself, or the width marker. -/
def marker (n : Nat) : Nat :=
  if n < 0xfd then n else if n ≤ 0xffff then 0xfd else 0xfe

/-- What follows that byte. -/
def sizeAfter (m : Nat) : Codec Nat :=
  if m < 0xfd then .const m
  else if m = 0xfd then (number 2).guard fun n => 0xfd ≤ n
  else if m = 0xfe then (number 4).guard fun n => 0xffff < n ∧ n ≤ maxSize
  else .fail

theorem marker_of_valid (m n : Nat) (h : (sizeAfter m).valid n) :
    marker n = m := by
  unfold sizeAfter at h
  unfold marker
  split at h
  case isTrue hm =>
      have hn : n = m := h
      rw [hn, if_pos hm]
  case isFalse hm =>
      split at h
      case isTrue hm' =>
          obtain ⟨hn, hlo⟩ := h
          have hlt : n < 256 ^ 2 := number_valid.mp hn
          rw [if_neg (by omega), if_pos (by omega), hm']
      case isFalse =>
          split at h
          case isTrue hm' =>
              obtain ⟨-, hlo, -⟩ := h
              rw [if_neg (by omega), if_neg (by omega), hm']
          case isFalse => exact h.elim

def compactSize : Codec Nat :=
  (number 1).andThen sizeAfter marker marker_of_valid

/-- A size and the bytes it takes. -/
theorem compactSize_write (n : Nat) :
    compactSize.write n = if n < 0xfd then leBytes 1 n
      else if n ≤ 0xffff then 0xfd :: leBytes 2 n
      else 0xfe :: leBytes 4 n := by
  show leBytes 1 (marker n) ++ (sizeAfter (marker n)).write n = _
  unfold marker
  split
  case isTrue h =>
      rw [sizeAfter, if_pos h]
      exact List.append_nil _
  case isFalse =>
      split
      case isTrue => rfl
      case isFalse => rfl

theorem compactSize_valid {n : Nat} :
    compactSize.valid n ↔ n ≤ maxSize := by
  show (number 1).valid (marker n) ∧ (sizeAfter (marker n)).valid n ↔ _
  rw [number_valid]
  unfold marker maxSize
  split
  case isTrue h =>
      rw [sizeAfter, if_pos h]
      have hconst : (Codec.const n).valid n := rfl
      exact ⟨fun _ => by omega, fun _ => ⟨by omega, hconst⟩⟩
  case isFalse h =>
      split
      case isTrue h' =>
          have hvalid : (sizeAfter 0xfd).valid n
              ↔ (number 2).valid n ∧ 0xfd ≤ n := .rfl
          rw [hvalid, number_valid]
          omega
      case isFalse h' =>
          have hvalid : (sizeAfter 0xfe).valid n
              ↔ (number 4).valid n ∧ 0xffff < n ∧ n ≤ maxSize := .rfl
          rw [hvalid, number_valid]
          unfold maxSize
          omega

-- ============================================================ transactions

/-- A string of bytes after its length. -/
def varBytes : Codec Bytes :=
  compactSize.andThen fixed List.length fun _ _ h => h

/-- A list after its length. -/
def counted {α : Type} (c : Codec α) : Codec (List α) :=
  compactSize.andThen c.many List.length c.many_length

@[simp] theorem varBytes_write (bs : Bytes) :
    varBytes.write bs = compactSize.write bs.length ++ bs := rfl

@[simp] theorem varBytes_valid {bs : Bytes} :
    varBytes.valid bs ↔ compactSize.valid bs.length :=
  and_iff_left rfl

@[simp] theorem counted_write {α : Type} (c : Codec α) (xs : List α) :
    (counted c).write xs
      = compactSize.write xs.length ++ xs.flatMap c.write := rfl

@[simp] theorem counted_valid {α : Type} {c : Codec α} {xs : List α} :
    (counted c).valid xs
      ↔ compactSize.valid xs.length ∧ ∀ x ∈ xs, c.valid x :=
  and_congr_right fun _ => and_iff_right rfl

structure TxIn where
  prevout : Bytes
  scriptSig : Bytes
  sequence : Nat
deriving DecidableEq

structure TxOut where
  value : Nat
  scriptPubKey : Bytes
deriving DecidableEq

structure Tx where
  version : Nat
  inputs : List TxIn
  outputs : List TxOut
  lockTime : Nat
deriving DecidableEq

def TxIn.codec : Codec TxIn :=
  ((fixed 36).pair (varBytes.pair (number 4))).map
    (fun p => ⟨p.1, p.2.1, p.2.2⟩)
    (fun i => (i.prevout, i.scriptSig, i.sequence)) fun _ _ => rfl

def TxOut.codec : Codec TxOut :=
  ((number 8).pair varBytes).map (fun p => ⟨p.1, p.2⟩)
    (fun o => (o.value, o.scriptPubKey)) fun _ _ => rfl

def Tx.codec : Codec Tx :=
  ((number 4).pair ((counted TxIn.codec).pair
      ((counted TxOut.codec).pair (number 4)))).map
    (fun p => ⟨p.1, p.2.1, p.2.2.1, p.2.2.2⟩)
    (fun t => (t.version, t.inputs, t.outputs, t.lockTime)) fun _ _ => rfl

@[simp] theorem TxIn.codec_write (i : TxIn) :
    TxIn.codec.write i = i.prevout
      ++ (compactSize.write i.scriptSig.length ++ i.scriptSig
        ++ (number 4).write i.sequence) := rfl

@[simp] theorem TxIn.codec_valid {i : TxIn} :
    TxIn.codec.valid i ↔ i.prevout.length = 36
      ∧ compactSize.valid i.scriptSig.length
      ∧ (number 4).valid i.sequence := by
  rw [← varBytes_valid, ← fixed_valid, ← pair_valid (x := ⟨_, _⟩)]
  exact and_iff_left rfl

@[simp] theorem TxOut.codec_write (o : TxOut) :
    TxOut.codec.write o
      = (number 8).write o.value ++ varBytes.write o.scriptPubKey := rfl

@[simp] theorem TxOut.codec_valid {o : TxOut} :
    TxOut.codec.valid o
      ↔ (number 8).valid o.value ∧ compactSize.valid o.scriptPubKey.length := by
  rw [← varBytes_valid, ← pair_valid (x := ⟨_, _⟩)]
  exact and_iff_left rfl

@[simp] theorem Tx.codec_write (t : Tx) :
    Tx.codec.write t = (number 4).write t.version
      ++ ((counted TxIn.codec).write t.inputs
        ++ ((counted TxOut.codec).write t.outputs
          ++ (number 4).write t.lockTime)) := rfl

@[simp] theorem Tx.codec_valid {t : Tx} :
    Tx.codec.valid t ↔ (number 4).valid t.version
      ∧ (counted TxIn.codec).valid t.inputs
      ∧ (counted TxOut.codec).valid t.outputs
      ∧ (number 4).valid t.lockTime :=
  and_iff_left rfl

-- ===================================================== coinbases cut in two

/-- What comes before an input script: version, number of inputs, previous
output, script length. -/
def scriptHead : Codec (Nat × Nat × Bytes × Nat) :=
  (number 4).pair (compactSize.pair ((fixed 36).pair compactSize))

/-- What comes after the script of the last input: sequence, outputs,
locktime. -/
def scriptTail : Codec (Nat × List TxOut × Nat) :=
  (number 4).pair ((counted TxOut.codec).pair (number 4))

/-- How many bytes the script still takes where a coinbase is cut inside
it. -/
def openLength (bs : Bytes) : Option Nat :=
  match scriptHead.read bs with
  | some ((_, 1, _, len), script) =>
      if script.length ≤ len then some (len - script.length) else none
  | _ => none

theorem openLength_eq_some {bs : Bytes} {k : Nat}
    (h : openLength bs = some k) :
    ∃ version prevout len script,
      scriptHead.valid (version, 1, prevout, len)
        ∧ bs = scriptHead.write (version, 1, prevout, len) ++ script
        ∧ script.length + k = len := by
  unfold openLength at h
  split at h
  case h_1 version prevout len script hread =>
      obtain ⟨hvalid, hbs⟩ := scriptHead.read_eq_some.mp hread
      split at h
      case isTrue hle =>
          injection h with hk
          exact ⟨version, prevout, len, script, hvalid, hbs, by omega⟩
      case isFalse => cases h
  case h_2 => cases h

theorem write_coinbase (version lockTime : Nat) (i : TxIn)
    (outputs : List TxOut) :
    Tx.codec.write ⟨version, [i], outputs, lockTime⟩
      = scriptHead.write (version, 1, i.prevout, i.scriptSig.length)
        ++ (i.scriptSig
          ++ scriptTail.write (i.sequence, outputs, lockTime)) := by
  simp [scriptHead, scriptTail]

theorem valid_coinbase {version lockTime : Nat} {i : TxIn}
    {outputs : List TxOut} :
    Tx.codec.valid ⟨version, [i], outputs, lockTime⟩
      ↔ scriptHead.valid (version, 1, i.prevout, i.scriptSig.length)
        ∧ scriptTail.valid (i.sequence, outputs, lockTime) := by
  simp only [Tx.codec_valid, counted_valid, List.length_singleton,
    List.mem_singleton, forall_eq, TxIn.codec_valid, scriptHead, scriptTail,
    pair_valid, fixed_valid]
  tauto

/-- A transaction that begins with version and input count of a coinbase
has one input. -/
theorem inputs_of_write {t : Tx} {version : Nat} {prevout rest : Bytes}
    {len : Nat} (ht : Tx.codec.valid t)
    (hhead : scriptHead.valid (version, 1, prevout, len))
    (h : scriptHead.write (version, 1, prevout, len) ++ rest
      = Tx.codec.write t) :
    ∃ i, t.inputs = [i] := by
  obtain ⟨htversion, hinputs, -⟩ := Tx.codec_valid.mp ht
  obtain ⟨htcount, -⟩ := counted_valid.mp hinputs
  obtain ⟨hversion, hcount, -⟩ := hhead
  have hsplit : (number 4).write version ++ (compactSize.write 1
      ++ ((fixed 36).write prevout ++ compactSize.write len ++ rest))
      = (number 4).write t.version ++ (compactSize.write t.inputs.length
        ++ (t.inputs.flatMap TxIn.codec.write
          ++ ((counted TxOut.codec).write t.outputs
            ++ (number 4).write t.lockTime))) := by
    simpa [scriptHead] using h
  obtain ⟨-, hsplit⟩ := write_unique hversion htversion hsplit
  obtain ⟨hone, -⟩ := write_unique hcount htcount hsplit
  exact List.length_eq_one_iff.mp hone.symm

/-- Continuing a coinbase cut with `k` bytes of script to come: the first
`k` bytes are script, whatever they are, and the outputs are read from
the rest. -/
theorem parse_cut {c bs : Bytes} {k : Nat} {outputs : List TxOut}
    (hk : openLength c = some k) :
    (∃ t, Tx.codec.parse (c ++ bs) = some t ∧ t.outputs = outputs)
      ↔ k ≤ bs.length ∧ ∃ sequence lockTime,
        scriptTail.parse (bs.drop k) = some (sequence, outputs, lockTime) := by
  obtain ⟨version, prevout, len, script, hhead, rfl, hlen⟩ :=
    openLength_eq_some hk
  constructor
  · rintro ⟨t, hparse, rfl⟩
    obtain ⟨hvalid, hbs⟩ := parse_eq_some.mp hparse
    rw [List.append_assoc] at hbs
    obtain ⟨i, hi⟩ := inputs_of_write hvalid hhead hbs
    obtain ⟨v, inputs, outputs, lockTime⟩ := t
    dsimp only at hi
    subst hi
    rw [write_coinbase] at hbs
    obtain ⟨hhead', htail⟩ := valid_coinbase.mp hvalid
    obtain ⟨hpre, hrest⟩ := write_unique hhead hhead' hbs
    injection hpre with _ hpre
    injection hpre with _ hpre
    injection hpre with _ hscript
    have hfit : k ≤ bs.length := by
      have := congrArg List.length hrest
      simp only [List.length_append] at this
      omega
    refine ⟨hfit, i.sequence, lockTime, parse_eq_some.mpr ⟨htail, ?_⟩⟩
    have hdrop := congrArg (List.drop len) hrest
    rw [List.drop_append, List.drop_of_length_le (by omega),
      show len - script.length = k by omega, List.nil_append, hscript,
      List.drop_left] at hdrop
    exact hdrop
  · rintro ⟨hfit, sequence, lockTime, htail⟩
    obtain ⟨hvalid, hdrop⟩ := parse_eq_some.mp htail
    have hscript : (script ++ bs.take k).length = len := by
      rw [List.length_append, List.length_take, Nat.min_eq_left hfit, hlen]
    refine ⟨⟨version, [⟨prevout, script ++ bs.take k, sequence⟩], outputs,
      lockTime⟩, parse_eq_some.mpr ⟨?_, ?_⟩, rfl⟩
    · rw [valid_coinbase]
      dsimp only
      rw [hscript]
      exact ⟨hhead, hvalid⟩
    · rw [write_coinbase]
      dsimp only
      rw [hscript, ← hdrop, List.append_assoc, List.append_assoc,
        List.take_append_drop]

end BitcoinTx
