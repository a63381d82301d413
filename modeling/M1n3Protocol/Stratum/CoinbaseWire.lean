/-
The stratum server's coinbase and block as Bitcoin reads them.

# The two halves

Around any twelve bytes the halves of a coinbase are one transaction: one
null input whose script is height push and extranonce, the payout, and the
commitment where there is one. The script length in `coinbase1` counts the
bytes still to come, which is why there have to be twelve.

# The witness

Splicing flag and witness into the bytes of a transaction gives its new
form, whatever the transaction is: the version is its first four bytes and
the locktime its last four.

# The sizes

All of it holds for any compact size that writes the lengths that occur as
`encodeScriptLen` does, and is then read off for Bitcoin Core's.
-/
import M1n3Protocol.Lib.BitcoinFormat
import M1n3Protocol.Stratum.Submit

namespace M1n3Protocol

open Codec BitcoinTx

-- ================================================================= lengths

theorem encodeScriptLen_eq {len : Nat} :
    encodeScriptLen len = compactSize.write len := by
  rw [compactSize_write, encodeScriptLen]

theorem encodeVarint_eq {n : Nat} (h : n ≤ maxSize) :
    encodeVarint (BitVec.ofNat 64 n) = compactSize.write n := by
  have hlt : n < 2 ^ 64 := Nat.lt_of_le_of_lt h (by decide)
  have hn : (BitVec.ofNat 64 n).toNat = n := by
    rw [BitVec.toNat_ofNat, Nat.mod_eq_of_lt hlt]
  have hsmall : BitVec.ofNat 64 n < 0xfd ↔ n < 0xfd := by
    rw [BitVec.lt_def, hn]
    rfl
  have hmid : BitVec.ofNat 64 n ≤ 0xffff ↔ n ≤ 0xffff := by
    rw [BitVec.le_def, hn]
    rfl
  have hlarge : BitVec.ofNat 64 n ≤ 0xffffffff := by
    rw [BitVec.le_def, hn]
    exact Nat.le_trans h (by decide)
  rw [encodeVarint, compactSize_write, hn]
  simp only [hsmall, hmid, if_pos hlarge]

theorem heightLen_le (raw : Bytes) : ∀ n, heightLen raw n ≤ n := by
  intro n
  induction n with
  | zero => exact Nat.le_refl 0
  | succ n ih =>
      cases n with
      | zero => exact Nat.le_refl 1
      | succ n =>
          rw [heightLen]
          split
          case isTrue => exact Nat.le_succ_of_le ih
          case isFalse => exact Nat.le_refl _

/-- Eight bytes and a sign byte. -/
theorem length_heightBytes_le (height : U64) :
    (heightBytes height).length ≤ 9 := by
  have hlen := heightLen_le (leBytes 8 height.toNat) 8
  unfold heightBytes
  dsimp only
  split
  case isTrue =>
      rw [List.length_append, List.length_take]
      simp only [List.length_singleton]
      omega
  case isFalse =>
      rw [List.length_take]
      omega

-- ============================================================ the coinbase

/-- The script the commitment output carries. -/
def BlockTemplate.commitment (template : BlockTemplate) : Option Bytes :=
  match template.defaultWitnessCommitment with
  | none => none
  | some commitmentHex =>
      if commitmentHex.isEmpty then none else Hex.decode commitmentHex

/-- The outputs after the payout. -/
def commitmentOutputs (template : BlockTemplate) : List TxOut :=
  template.commitment.toList.map fun script => ⟨0, script⟩

/-- The coinbase with its extranonce. -/
def coinbaseTx (template : BlockTemplate) (poolAddressScript : Bytes)
    (extranonce : Bytes) : Tx :=
  let height := heightBytes template.height
  { version := 1
    inputs := [{
      prevout := List.replicate 32 0 ++ List.replicate 4 0xff
      scriptSig := BitVec.ofNat 8 height.length :: height ++ extranonce
      sequence := 0xffffffff }]
    outputs := ⟨template.coinbasevalue.toNat,
      payoutScript poolAddressScript⟩ :: commitmentOutputs template
    lockTime := 0 }

/-- There is a commitment exactly where the flag says so. -/
theorem length_commitmentOutputs {template : BlockTemplate} {bytes : Bytes}
    (h : commitmentOutput template = some bytes) :
    (commitmentOutputs template).length
      = if template.hasWitnessCommitment then 1 else 0 := by
  unfold commitmentOutput at h
  unfold commitmentOutputs BlockTemplate.commitment
    BlockTemplate.hasWitnessCommitment
  cases hc : template.defaultWitnessCommitment with
  | none => rfl
  | some commitmentHex =>
      rw [hc] at h
      cases commitmentHex with
      | nil => rfl
      | cons c cs =>
          obtain ⟨script, hscript, -⟩ := Option.map_eq_some_iff.mp h
          have hdecode : Hex.decode (c :: cs) = some script := hscript
          dsimp only
          rw [if_neg (by simp), hdecode]
          rfl

/-- The lengths of the scripts paid to. -/
def scriptLengths (template : BlockTemplate) (poolAddressScript : Bytes) :
    List Nat :=
  (payoutScript poolAddressScript).length
    :: template.commitment.toList.map List.length

/-- The sizes that occur in a coinbase: its counts, the length of its input
script, and those of the scripts it pays to. -/
def Occurs (template : BlockTemplate) (poolAddressScript : Bytes) (n : Nat) :
    Prop :=
  n < 0xfd ∨ n ∈ scriptLengths template poolAddressScript

section AnySize

variable {size : Codec Nat} {template : BlockTemplate}
  {poolAddressScript : Bytes}

/-- The commitment's bytes are its output. -/
theorem commitmentOutput_eq {bytes : Bytes}
    (hsize : ∀ n, Occurs template poolAddressScript n →
      size.write n = encodeScriptLen n)
    (h : commitmentOutput template = some bytes) :
    bytes = (commitmentOutputs template).flatMap
      (Format.txOut size).write := by
  have hcommitment : ∀ script ∈ template.commitment,
      size.write script.length = encodeScriptLen script.length :=
    fun script hscript => hsize _ (.inr (List.mem_cons_of_mem _
      (List.mem_map_of_mem (Option.mem_toList.mpr hscript))))
  unfold commitmentOutput at h
  unfold commitmentOutputs
  unfold BlockTemplate.commitment at hcommitment ⊢
  cases hc : template.defaultWitnessCommitment with
  | none =>
      rw [hc] at h
      cases h
      rfl
  | some commitmentHex =>
      rw [hc] at h hcommitment
      dsimp only at h hcommitment ⊢
      cases commitmentHex with
      | nil =>
          cases h
          rfl
      | cons c cs =>
          obtain ⟨script, hscript, rfl⟩ := Option.map_eq_some_iff.mp h
          have hdecode : Hex.decode (c :: cs) = some script := hscript
          have hwrite := hcommitment script hscript
          simp only [List.isEmpty_cons, Bool.false_eq_true, if_false,
            hdecode, Option.toList_some, List.map_cons, List.map_nil,
            List.flatMap_cons, List.flatMap_nil, List.append_nil,
            Format.txOut_write, Format.varBytes_write, hwrite,
            List.append_assoc]
          rfl

/-- The halves around an extranonce are the coinbase, under any size that
writes its lengths as the server does. -/
theorem coinbase_written {coinbase1 coinbase2 extranonce : Bytes}
    (hsize : ∀ n, Occurs template poolAddressScript n →
      size.write n = encodeScriptLen n)
    (h : createCoinbase template poolAddressScript
      = some (coinbase1, coinbase2))
    (hlen : extranonce.length = 12) :
    coinbase1 ++ extranonce ++ coinbase2 = (Format.tx size).write
      (coinbaseTx template poolAddressScript extranonce) := by
  obtain ⟨bytes, hbytes, h⟩ := Option.bind_eq_some_iff.mp h
  cases h
  have hflat := commitmentOutput_eq hsize hbytes
  have hcount := length_commitmentOutputs hbytes
  have hscript : (BitVec.ofNat 8 (heightBytes template.height).length
      :: heightBytes template.height ++ extranonce).length
        = 1 + (heightBytes template.height).length + 12 := by
    simp only [List.cons_append, List.length_cons, List.length_append, hlen]
    omega
  have hsmall : ∀ n, n < 0xfd → size.write n = leBytes 1 n := by
    intro n hn
    rw [hsize n (.inl hn), encodeScriptLen, if_pos hn]
  have hinput : size.write (1 + (heightBytes template.height).length + 12)
      = leBytes 1 (1 + (heightBytes template.height).length + 12) := by
    have := length_heightBytes_le template.height
    exact hsmall _ (by omega)
  have houtputs : (if template.hasWitnessCommitment then 2 else 1 :
      BitVec 8) :: [] = size.write
        ((commitmentOutputs template).length + 1) := by
    rw [hcount]
    cases template.hasWitnessCommitment with
    | true => exact (hsmall 2 (by decide)).symm
    | false => exact (hsmall 1 (by decide)).symm
  have hpayout := hsize _ (.inr (List.mem_cons_self
    (a := (payoutScript poolAddressScript).length)
    (l := template.commitment.toList.map List.length)))
  unfold coinbaseTx
  simp only [Format.tx_write, Format.counted_write, List.flatMap_cons,
    List.flatMap_nil, Format.txIn_write, hscript, List.length_cons,
    Format.txOut_write, Format.varBytes_write, ← hflat, List.append_nil,
    List.append_assoc]
  rw [← houtputs, hinput, hpayout]
  simp only [coinbase1, List.append_assoc, List.cons_append,
    List.nil_append]
  rw [show size.write ([] : List TxIn).length.succ = [1] from
    hsmall 1 (by decide)]
  rfl

theorem coinbase_wellSized {extranonce : Bytes}
    (hsize : ∀ n, Occurs template poolAddressScript n → size.valid n)
    (hlen : extranonce.length = 12) :
    (Format.tx size).valid
      (coinbaseTx template poolAddressScript extranonce) := by
  have hheight := length_heightBytes_le template.height
  have hvalue : (number 8).valid template.coinbasevalue.toNat :=
    number_valid.mpr template.coinbasevalue.isLt
  have hone : (number 4).valid 1 := number_valid.mpr (by decide)
  have hzero : (number 4).valid 0 := number_valid.mpr (by decide)
  have hfinal : (number 4).valid 0xffffffff := number_valid.mpr (by decide)
  have hnothing : (number 8).valid 0 := number_valid.mpr (by decide)
  have hcommitments : ∀ o ∈ commitmentOutputs template,
      (Format.txOut size).valid o := by
    intro o ho
    obtain ⟨script, hscript, rfl⟩ := List.mem_map.mp ho
    rw [Format.txOut_valid]
    exact ⟨hnothing, hsize _ (.inr (List.mem_cons_of_mem _
      (List.mem_map_of_mem hscript)))⟩
  have hcount : (commitmentOutputs template).length ≤ 1 := by
    unfold commitmentOutputs
    cases template.commitment <;> simp
  refine Format.tx_valid.mpr ⟨hone, ?_, ?_, hzero⟩
  · refine Format.counted_valid.mpr ⟨hsize 1 (.inl (by decide)), ?_⟩
    intro i hi
    rw [List.mem_singleton.mp hi, Format.txIn_valid]
    refine ⟨rfl, hsize _ (.inl ?_), hfinal⟩
    simp only [List.cons_append, List.length_cons, List.length_append, hlen]
    omega
  · refine Format.counted_valid.mpr ⟨hsize _ (.inl ?_), ?_⟩
    · show (commitmentOutputs template).length + 1 < 0xfd
      omega
    · intro o ho
      rcases List.mem_cons.mp ho with rfl | ho
      · exact Format.txOut_valid.mpr
          ⟨hvalue, hsize _ (.inr List.mem_cons_self)⟩
      · exact hcommitments o ho

end AnySize

/-- The halves around an extranonce are the coinbase. -/
theorem coinbase_write {template : BlockTemplate}
    {poolAddressScript coinbase1 coinbase2 extranonce : Bytes}
    (h : createCoinbase template poolAddressScript
      = some (coinbase1, coinbase2))
    (hlen : extranonce.length = 12) :
    coinbase1 ++ extranonce ++ coinbase2
      = Tx.codec.write (coinbaseTx template poolAddressScript extranonce) :=
  coinbase_written (fun _ _ => encodeScriptLen_eq.symm) h hlen

/-- Scripts that have an encoding. -/
structure ScriptsFit (template : BlockTemplate) (poolAddressScript : Bytes) :
    Prop where
  payout : poolAddressScript.length ≤ maxSize
  commitment : ∀ script, template.commitment = some script →
    script.length ≤ maxSize

/-- A bound on the scripts bounds the sizes, if short ones are within it. -/
theorem Occurs.le {template : BlockTemplate} {poolAddressScript : Bytes}
    {n bound : Nat} (h : Occurs template poolAddressScript n)
    (hshort : 0xfd ≤ bound) (hpayout : poolAddressScript.length ≤ bound)
    (hcommitment : ∀ script, template.commitment = some script →
      script.length ≤ bound) : n ≤ bound := by
  rcases h with h | h
  · omega
  · rcases List.mem_cons.mp h with rfl | h
    · unfold payoutScript
      split
      case isTrue => exact Nat.le_trans (by decide) hshort
      case isFalse => exact hpayout
    · obtain ⟨script, hscript, rfl⟩ := List.mem_map.mp h
      exact hcommitment script (Option.mem_toList.mp hscript)

theorem coinbase_valid {template : BlockTemplate}
    {poolAddressScript extranonce : Bytes}
    (hfit : ScriptsFit template poolAddressScript)
    (hlen : extranonce.length = 12) :
    Tx.codec.valid (coinbaseTx template poolAddressScript extranonce) :=
  coinbase_wellSized (fun _ h => compactSize_valid.mpr
    (h.le (by decide) hfit.payout hfit.commitment)) hlen

-- ============================================================= the witness

/-- A transaction as the server writes its coinbase. -/
def wireCoinbase (t : Tx) (hasWitness : Bool) : WireTx :=
  ⟨t, if hasWitness then some [[List.replicate 32 0]] else none⟩

/-- Taken apart at its first and last four bytes. -/
theorem spliced {version rest lockTime : Bytes} (hv : version.length = 4)
    (hl : lockTime.length = 4) :
    coinbaseBytes (version ++ (rest ++ lockTime)) true
      = version ++ [0x00, 0x01] ++ rest ++ [0x01, 0x20]
        ++ List.replicate 32 0 ++ lockTime := by
  have hlen : (version ++ (rest ++ lockTime)).length - 4
      = (version ++ rest).length := by
    simp only [List.length_append]
    omega
  rw [coinbaseBytes, if_pos rfl, hlen, ← hv, List.take_left,
    ← List.append_assoc, List.take_left, List.drop_left, List.drop_left]

section AnySize

variable {size : Codec Nat}

theorem coinbaseBytes_written {t : Tx}
    (hsize : ∀ n, n < 0xfd → size.write n = leBytes 1 n)
    (hin : t.inputs.length = 1) (hasWitness : Bool) :
    coinbaseBytes ((Format.tx size).write t) hasWitness
      = (Format.wireTx size).write (wireCoinbase t hasWitness) := by
  have hne : t.inputs ≠ [] := List.ne_nil_of_length_eq_add_one hin
  cases hasWitness with
  | false => exact (Format.wireTx_old hne).1.symm
  | true =>
      have hparts : (Format.tx size).write t = (number 4).write t.version
          ++ (((Format.counted size (Format.txIn size)).write t.inputs
            ++ (Format.counted size (Format.txOut size)).write t.outputs)
            ++ (number 4).write t.lockTime) := by
        rw [Format.tx_write, List.append_assoc]
      rw [hparts, spliced (length_number_write 4 _)
        (length_number_write 4 _)]
      refine Eq.trans ?_ Format.wireTx_new.1.symm
      have hstack : (Format.witnessStacks size t.inputs.length).write
          [[List.replicate 32 0]] = [0x01, 0x20] ++ List.replicate 32 0 := by
        show [[List.replicate 32 0]].flatMap
          (Format.counted size (Format.varBytes size)).write = _
        simp only [List.flatMap_cons, List.flatMap_nil, List.append_nil,
          Format.counted_write, Format.varBytes_write, List.length_cons,
          List.length_nil, List.length_replicate, hsize 1 (by decide),
          hsize 32 (by decide)]
        rfl
      have hzero : size.write 0 = [0x00] := hsize 0 (by decide)
      rw [hstack, hzero]
      simp only [List.append_assoc, List.cons_append, List.nil_append]

theorem wireCoinbase_wellSized {t : Tx}
    (hsize : ∀ n, n < 0xfd → size.valid n) (hin : t.inputs.length = 1)
    (ht : (Format.tx size).valid t) (hasWitness : Bool) :
    (Format.wireTx size).valid (wireCoinbase t hasWitness) := by
  have hne : t.inputs ≠ [] := List.ne_nil_of_length_eq_add_one hin
  cases hasWitness with
  | false => exact (Format.wireTx_old hne).2.mpr ht
  | true =>
      refine Format.wireTx_new.2 (hsize 0 (by decide)) ht ?_
      refine ⟨⟨hin.symm, fun stack hstack => ?_⟩, [List.replicate 32 0],
        List.mem_singleton_self _, List.cons_ne_nil _ _⟩
      rw [List.mem_singleton.mp hstack, Format.counted_valid]
      refine ⟨hsize 1 (by decide), fun item hitem => ?_⟩
      rw [List.mem_singleton.mp hitem, Format.varBytes_valid]
      exact hsize 32 (by decide)

end AnySize

/-- Core's size of a small number. -/
theorem compactSize_small {n : Nat} (h : n < 0xfd) :
    compactSize.write n = leBytes 1 n ∧ compactSize.valid n := by
  rw [compactSize_write, if_pos h, compactSize_valid, maxSize]
  exact ⟨rfl, by omega⟩

theorem wireCoinbase_valid {t : Tx} (hin : t.inputs.length = 1)
    (ht : Tx.codec.valid t) (hasWitness : Bool) :
    WireTx.codec.valid (wireCoinbase t hasWitness) :=
  wireCoinbase_wellSized (fun _ h => (compactSize_small h).2) hin ht
    hasWitness

-- =============================================================== the block

/-- Transactions as text, and what they are. -/
def Decodes (data : Text) (w : WireTx) : Prop :=
  ∃ bytes, Hex.decode data = some bytes ∧ WireTx.codec.parse bytes = some w

theorem mapM_decodes {transactionData : List Text} {txs : List WireTx}
    (h : List.Forall₂ Decodes transactionData txs) :
    transactionData.mapM Hex.decode = some (txs.map WireTx.codec.write)
      ∧ ∀ w ∈ txs, WireTx.codec.valid w := by
  induction h with
  | nil => exact ⟨rfl, fun w hw => by cases hw⟩
  | @cons data w _ _ hdecodes _ ih =>
      obtain ⟨bytes, hbytes, hparse⟩ := hdecodes
      obtain ⟨hvalid, rfl⟩ := parse_eq_some.mp hparse
      obtain ⟨hrest, hall⟩ := ih
      constructor
      · rw [List.mapM_cons, hbytes, hrest]
        rfl
      · intro w' hw'
        rcases List.mem_cons.mp hw' with rfl | hw'
        · exact hvalid
        · exact hall w' hw'

/-- What is assembled from transactions that decode is a block of the
coinbase and them. -/
theorem assembleBlock_parse {header coinbase1 extranonce coinbase2 : Bytes}
    {hasWitness : Bool} {transactionData : List Text} {t : Tx}
    {txs : List WireTx} (hheader : header.length = 80)
    (hcoinbase : coinbase1 ++ extranonce ++ coinbase2 = Tx.codec.write t)
    (hin : t.inputs.length = 1) (ht : Tx.codec.valid t)
    (hdata : List.Forall₂ Decodes transactionData txs)
    (hcount : 1 + transactionData.length ≤ maxSize) :
    ∃ blockHex bytes, assembleBlock header coinbase1 extranonce coinbase2
        hasWitness transactionData = some blockHex
      ∧ Hex.decode blockHex = some bytes
      ∧ Block.codec.parse bytes
        = some ⟨header, wireCoinbase t hasWitness :: txs⟩ := by
  obtain ⟨hmapM, hall⟩ := mapM_decodes hdata
  have hlen : 1 + transactionData.length
      = (wireCoinbase t hasWitness :: txs).length := by
    rw [List.length_cons, hdata.length_eq, Nat.add_comm]
  refine ⟨_, Block.codec.write ⟨header, wireCoinbase t hasWitness :: txs⟩,
    ?_, Hex.decode_encode _, parse_eq_some.mpr ⟨?_, rfl⟩⟩
  · rw [assembleBlock, hmapM]
    show some (Hex.encode _) = _
    have hsplice : coinbaseBytes (Tx.codec.write t) hasWitness
        = WireTx.codec.write (wireCoinbase t hasWitness) :=
      coinbaseBytes_written (fun _ h => (compactSize_small h).1) hin hasWitness
    rw [encodeVarint_eq hcount, hcoinbase, hsplice, hlen,
      ← List.flatMap_def, Block.codec_write, counted_write,
      List.flatMap_cons]
    simp only [List.append_assoc]
  · rw [Block.codec_valid, counted_valid, ← hlen]
    refine ⟨hheader, compactSize_valid.mpr hcount, fun w hw => ?_⟩
    rcases List.mem_cons.mp hw with rfl | hw
    · exact wireCoinbase_valid hin ht hasWitness
    · exact hall w hw

end M1n3Protocol
