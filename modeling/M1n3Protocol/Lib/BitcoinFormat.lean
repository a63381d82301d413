/-
The transaction format over any reading of a compact size, and the numbers
of its scripts.

# Sizes of every width

`compactSize` stops where Bitcoin Core does, at `maxSize`. The format
itself writes sizes of up to eight bytes, each in its shortest form:
`fullSize`. Nothing else in a transaction depends on which of the two is
read, so `Format` takes the size as a parameter, and with `compactSize` it
is the format of `BitcoinTx`.

# Script numbers

A number in a script is little-endian without leading zeros, and has a
zero byte more where its top bit would be read as a sign. From 17 on it
is pushed as these bytes behind their length.
-/
import M1n3Protocol.Lib.BitcoinBlock

namespace BitcoinTx

open Codec

-- =============================================================== full size

def fullMarker (n : Nat) : Nat :=
  if n < 0xfd then n
  else if n ≤ 0xffff then 0xfd
  else if n ≤ 0xffffffff then 0xfe
  else 0xff

def fullSizeAfter (m : Nat) : Codec Nat :=
  if m < 0xfd then .const m
  else if m = 0xfd then (number 2).guard fun n => 0xfd ≤ n
  else if m = 0xfe then (number 4).guard fun n => 0xffff < n
  else if m = 0xff then (number 8).guard fun n => 0xffffffff < n
  else .fail

theorem fullMarker_of_valid (m n : Nat) (h : (fullSizeAfter m).valid n) :
    fullMarker n = m := by
  unfold fullSizeAfter at h
  unfold fullMarker
  split at h
  case isTrue hm =>
      have hn : n = m := h
      rw [hn, if_pos hm]
  case isFalse =>
      split at h
      case isTrue hm =>
          obtain ⟨hn, hlo⟩ := h
          have hlt : n < 256 ^ 2 := number_valid.mp hn
          rw [if_neg (by omega), if_pos (by omega), hm]
      case isFalse =>
          split at h
          case isTrue hm =>
              obtain ⟨hn, hlo⟩ := h
              have hlt : n < 256 ^ 4 := number_valid.mp hn
              rw [if_neg (by omega), if_neg (by omega), if_pos (by omega), hm]
          case isFalse =>
              split at h
              case isTrue hm =>
                  obtain ⟨-, hlo⟩ := h
                  rw [if_neg (by omega), if_neg (by omega),
                    if_neg (by omega), hm]
              case isFalse => exact h.elim

/-- A compact size of one, three, five or nine bytes. -/
def fullSize : Codec Nat :=
  (number 1).andThen fullSizeAfter fullMarker fullMarker_of_valid

/-- Below 32 bits, a size as `compactSize` writes it. -/
theorem fullSize_write {n : Nat} (h : n < 2 ^ 32) :
    fullSize.write n = compactSize.write n := by
  rw [compactSize_write]
  show leBytes 1 (fullMarker n) ++ (fullSizeAfter (fullMarker n)).write n = _
  unfold fullMarker
  split
  case isTrue hn =>
      rw [fullSizeAfter, if_pos hn]
      exact List.append_nil _
  case isFalse =>
      split
      case isTrue => rfl
      case isFalse =>
          rw [if_pos (by omega)]
          rfl

theorem fullSize_valid {n : Nat} (h : n < 2 ^ 32) : fullSize.valid n := by
  show (number 1).valid (fullMarker n)
    ∧ (fullSizeAfter (fullMarker n)).valid n
  rw [number_valid]
  unfold fullMarker
  split
  case isTrue hn =>
      rw [fullSizeAfter, if_pos hn]
      exact ⟨by omega, rfl⟩
  case isFalse hn =>
      split
      case isTrue =>
          have hvalid : (number 2).valid n := number_valid.mpr (by omega)
          exact ⟨by decide, hvalid, Nat.le_of_not_lt hn⟩
      case isFalse hn' =>
          rw [if_pos (by omega)]
          have hvalid : (number 4).valid n := number_valid.mpr (by omega)
          exact ⟨by decide, hvalid, Nat.lt_of_not_le hn'⟩

-- ============================================================== the format

namespace Format

variable (size : Codec Nat)

def varBytes : Codec Bytes :=
  size.andThen fixed List.length fun _ _ h => h

def counted {α : Type} (c : Codec α) : Codec (List α) :=
  size.andThen c.many List.length c.many_length

def txIn : Codec TxIn :=
  ((fixed 36).pair ((varBytes size).pair (number 4))).map
    (fun p => ⟨p.1, p.2.1, p.2.2⟩)
    (fun i => (i.prevout, i.scriptSig, i.sequence)) fun _ _ => rfl

def txOut : Codec TxOut :=
  ((number 8).pair (varBytes size)).map (fun p => ⟨p.1, p.2⟩)
    (fun o => (o.value, o.scriptPubKey)) fun _ _ => rfl

def tx : Codec Tx :=
  ((number 4).pair ((counted size (txIn size)).pair
      ((counted size (txOut size)).pair (number 4)))).map
    (fun p => ⟨p.1, p.2.1, p.2.2.1, p.2.2.2⟩)
    (fun t => (t.version, t.inputs, t.outputs, t.lockTime)) fun _ _ => rfl

def oldBody (version n : Nat) : Codec WireTx :=
  (((txIn size).many n).pair ((counted size (txOut size)).pair
      (number 4))).map
    (fun p => ⟨⟨version, p.1, p.2.1, p.2.2⟩, none⟩)
    (fun w => (w.tx.inputs, w.tx.outputs, w.tx.lockTime)) fun _ _ => rfl

def witnessStacks (n : Nat) : Codec (List (List Bytes)) :=
  ((counted size (varBytes size)).many n).guard fun ws => ∃ w ∈ ws, w ≠ []

def newTail (version : Nat) (inputs : List TxIn) (outputs : List TxOut) :
    Codec WireTx :=
  ((witnessStacks size inputs.length).pair (number 4)).map
    (fun p => ⟨⟨version, inputs, outputs, p.2⟩, some p.1⟩)
    (fun w => (w.witness.getD [], w.tx.lockTime)) fun _ _ => rfl

def newBody (version : Nat) : Codec WireTx :=
  tagged [1] (((counted size (txIn size)).pair
      (counted size (txOut size))).andThen
    (fun p => newTail size version p.1 p.2)
    (fun w => (w.tx.inputs, w.tx.outputs)) fun p w h => by
      have hforth := h.2
      rw [← hforth])

def body (version n : Nat) : Codec WireTx :=
  if n = 0 then newBody size version else oldBody size version n

theorem key_of_valid (p : Nat × Nat) (w : WireTx)
    (h : (body size p.1 p.2).valid w) : (w.tx.version, w.count) = p := by
  obtain ⟨version, n⟩ := p
  unfold body at h
  dsimp only at h
  split at h
  case isTrue hn =>
      have hforth := (tagged_valid.mp h).2.2
      rw [← hforth, hn]
      rfl
  case isFalse hn =>
      obtain ⟨⟨⟨hlen, -⟩, -⟩, hforth⟩ := h
      rw [← hforth, ← hlen]
      rfl

/-- A transaction of either form. -/
def wireTx : Codec WireTx :=
  ((number 4).pair size).andThen (fun p => body size p.1 p.2)
    (fun w => (w.tx.version, w.count)) (key_of_valid size)

theorem tx_compactSize : tx compactSize = Tx.codec := rfl

theorem wireTx_compactSize : wireTx compactSize = WireTx.codec := rfl

variable {size}

@[simp] theorem varBytes_write (bs : Bytes) :
    (varBytes size).write bs = size.write bs.length ++ bs := rfl

@[simp] theorem varBytes_valid {bs : Bytes} :
    (varBytes size).valid bs ↔ size.valid bs.length :=
  and_iff_left rfl

@[simp] theorem counted_write {α : Type} (c : Codec α) (xs : List α) :
    (counted size c).write xs = size.write xs.length ++ xs.flatMap c.write :=
  rfl

@[simp] theorem counted_valid {α : Type} {c : Codec α} {xs : List α} :
    (counted size c).valid xs ↔ size.valid xs.length ∧ ∀ x ∈ xs, c.valid x :=
  and_congr_right fun _ => and_iff_right rfl

@[simp] theorem txIn_write (i : TxIn) :
    (txIn size).write i = i.prevout
      ++ (size.write i.scriptSig.length ++ i.scriptSig
        ++ (number 4).write i.sequence) := rfl

@[simp] theorem txIn_valid {i : TxIn} :
    (txIn size).valid i ↔ i.prevout.length = 36
      ∧ size.valid i.scriptSig.length ∧ (number 4).valid i.sequence := by
  rw [← varBytes_valid, ← fixed_valid, ← pair_valid (x := ⟨_, _⟩)]
  exact and_iff_left rfl

@[simp] theorem txOut_write (o : TxOut) :
    (txOut size).write o
      = (number 8).write o.value ++ (varBytes size).write o.scriptPubKey :=
  rfl

@[simp] theorem txOut_valid {o : TxOut} :
    (txOut size).valid o
      ↔ (number 8).valid o.value ∧ size.valid o.scriptPubKey.length := by
  rw [← varBytes_valid, ← pair_valid (x := ⟨_, _⟩)]
  exact and_iff_left rfl

@[simp] theorem tx_write (t : Tx) :
    (tx size).write t = (number 4).write t.version
      ++ ((counted size (txIn size)).write t.inputs
        ++ ((counted size (txOut size)).write t.outputs
          ++ (number 4).write t.lockTime)) := rfl

@[simp] theorem tx_valid {t : Tx} :
    (tx size).valid t ↔ (number 4).valid t.version
      ∧ (counted size (txIn size)).valid t.inputs
      ∧ (counted size (txOut size)).valid t.outputs
      ∧ (number 4).valid t.lockTime :=
  and_iff_left rfl

/-- A transaction with an input, in the old form. -/
theorem wireTx_old {t : Tx} (hin : t.inputs ≠ []) :
    (wireTx size).write ⟨t, none⟩ = (tx size).write t
      ∧ ((wireTx size).valid ⟨t, none⟩ ↔ (tx size).valid t) := by
  have hn : t.inputs.length ≠ 0 := fun h =>
    hin (List.length_eq_zero_iff.mp h)
  have hbody : body size t.version t.inputs.length
      = oldBody size t.version t.inputs.length := if_neg hn
  constructor
  · show ((number 4).write t.version ++ size.write t.inputs.length)
      ++ (body size t.version t.inputs.length).write ⟨t, none⟩ = _
    rw [hbody, tx_write, counted_write, List.append_assoc,
      List.append_assoc]
    rfl
  · show ((number 4).valid t.version ∧ size.valid t.inputs.length)
      ∧ (body size t.version t.inputs.length).valid ⟨t, none⟩ ↔ _
    rw [hbody, tx_valid, counted_valid]
    constructor
    · rintro ⟨⟨hv, hc⟩, ⟨⟨-, hins⟩, houts, hlock⟩, -⟩
      exact ⟨hv, ⟨hc, hins⟩, houts, hlock⟩
    · rintro ⟨hv, ⟨hc, hins⟩, houts, hlock⟩
      exact ⟨⟨hv, hc⟩, ⟨⟨rfl, hins⟩, houts, hlock⟩, rfl⟩

/-- The new form: marker and flag after the version, the stacks before the
locktime. -/
theorem wireTx_new {t : Tx} {ws : List (List Bytes)} :
    (wireTx size).write ⟨t, some ws⟩
      = (number 4).write t.version ++ (size.write 0 ++ ([1]
        ++ ((counted size (txIn size)).write t.inputs
          ++ ((counted size (txOut size)).write t.outputs
            ++ ((witnessStacks size t.inputs.length).write ws
              ++ (number 4).write t.lockTime)))))
      ∧ (size.valid 0 → (tx size).valid t →
        (witnessStacks size t.inputs.length).valid ws →
        (wireTx size).valid ⟨t, some ws⟩) := by
  constructor
  · show ((number 4).write t.version ++ size.write 0)
      ++ ([1] ++ (((counted size (txIn size)).write t.inputs
          ++ (counted size (txOut size)).write t.outputs)
        ++ ((witnessStacks size t.inputs.length).write ws
          ++ (number 4).write t.lockTime))) = _
    simp only [List.append_assoc]
  · intro hzero ht hws
    obtain ⟨hv, hins, houts, hlock⟩ := tx_valid.mp ht
    have hnew : (newBody size t.version).valid ⟨t, some ws⟩ :=
      tagged_valid.mpr ⟨⟨hins, houts⟩, ⟨hws, hlock⟩, rfl⟩
    exact ⟨⟨hv, hzero⟩, hnew⟩

end Format

-- ========================================================== script numbers

/-- A number as a script holds it. -/
def scriptNum (n : Nat) : Bytes :=
  if n = 0 then []
  else if n < 0x80 then [BitVec.ofNat 8 n]
  else if n < 0x100 then [BitVec.ofNat 8 n, 0]
  else BitVec.ofNat 8 n :: scriptNum (n / 256)

/-- A number pushed on the stack, in the fewest bytes. -/
def pushNum (n : Nat) : Bytes :=
  if n = 0 then [0]
  else if n ≤ 16 then [BitVec.ofNat 8 (0x50 + n)]
  else BitVec.ofNat 8 (scriptNum n).length :: scriptNum n

/-- A zero byte after a top bit. -/
def padSign (bytes : Bytes) : Bytes :=
  if bytes.getLast?.any fun b => b &&& 0x80 ≠ 0 then bytes ++ [0] else bytes

theorem padSign_cons (b : BitVec 8) {bytes : Bytes} (h : bytes ≠ []) :
    padSign (b :: bytes) = b :: padSign bytes := by
  obtain ⟨c, cs, rfl⟩ := List.exists_cons_of_ne_nil h
  unfold padSign
  rw [List.getLast?_cons_cons]
  split <;> rfl

theorem topBit_iff {n : Nat} (h : n < 0x100) :
    BitVec.ofNat 8 n &&& 0x80 ≠ 0 ↔ 0x80 ≤ n := by
  have key : ∀ b : BitVec 8, b &&& 0x80 ≠ 0 ↔ 0x80 ≤ b.toNat := by decide
  rw [key, BitVec.toNat_ofNat, Nat.mod_eq_of_lt h]

/-- As many bytes as a number needs, and the sign's zero. -/
theorem padSign_leBytes {len n : Nat} (hlt : n < 256 ^ (len + 1))
    (hle : 256 ^ len ≤ n) : padSign (leBytes (len + 1) n) = scriptNum n := by
  induction len generalizing n with
  | zero =>
      have hn : n < 0x100 := by omega
      have htop := topBit_iff hn
      rw [scriptNum, if_neg (by omega)]
      show (if (some (BitVec.ofNat 8 n)).any fun b => b &&& 0x80 ≠ 0
        then [BitVec.ofNat 8 n] ++ [0] else [BitVec.ofNat 8 n]) = _
      simp only [Option.any_some, decide_eq_true_eq, htop, if_pos hn]
      by_cases hbit : n < 0x80
      · rw [if_neg (by omega), if_pos hbit]
      · rw [if_pos (by omega), if_neg hbit]
        rfl
  | succ len ih =>
      have hbig : 256 ≤ n := by
        have := Nat.one_le_pow len 256 (by decide)
        rw [Nat.pow_succ] at hle
        omega
      have hquot : n / 256 < 256 ^ (len + 1) := by
        rw [Nat.pow_succ] at hlt
        omega
      have hquot' : 256 ^ len ≤ n / 256 := by
        rw [Nat.pow_succ] at hle
        omega
      have hne : leBytes (len + 1) (n / 256) ≠ [] := List.cons_ne_nil _ _
      rw [leBytes, padSign_cons _ hne, ih hquot hquot', scriptNum.eq_1 n,
        if_neg (by omega), if_neg (by omega), if_neg (by omega)]

end BitcoinTx
