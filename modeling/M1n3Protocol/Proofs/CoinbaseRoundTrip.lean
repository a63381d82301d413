/-
The coinbase the server writes, read back.

# Every length is written before it is known

The length of the input script stands in `coinbase1`, before any
extranonce: it is right for twelve bytes. The height takes as many bytes
as it needs and one more for the sign, which is the number a script
pushes; below 17 a script has opcodes for numbers and pushes none.

# Two forms, one id

Read as the form it is hashed in and, with the witness spliced in, as the
form a block carries it in, it is one transaction.
-/
import M1n3Protocol.Stratum.CoinbaseWire

namespace M1n3Protocol

open Codec BitcoinTx

-- ============================================================== the height

/-- The high zero bytes are dropped, and one byte is kept. -/
theorem heightLen_spec {n : Nat} :
    ∀ j, j + 1 ≤ 8 → n < 256 ^ (j + 1) →
      ∃ m, m ≤ j ∧ heightLen (leBytes 8 n) (j + 1) = m + 1
        ∧ n < 256 ^ (m + 1) ∧ (m = 0 ∨ 256 ^ m ≤ n) := by
  intro j
  induction j with
  | zero => exact fun _ hn => ⟨0, Nat.le_refl 0, rfl, hn, .inl rfl⟩
  | succ j ih =>
      intro hj hn
      have hdigit : n / 256 ^ (j + 1) < 256 := by
        rw [Nat.div_lt_iff_lt_mul (Nat.pow_pos (by decide)),
          Nat.mul_comm, ← Nat.pow_succ]
        exact hn
      have hzero : BitVec.ofNat 8 (n / 256 ^ (j + 1)) = 0
          ↔ n / 256 ^ (j + 1) = 0 := by
        rw [← BitVec.toNat_inj, BitVec.toNat_ofNat, Nat.mod_eq_of_lt hdigit]
        rfl
      rw [heightLen, getD_leBytes n hj]
      split
      case isTrue hnone =>
          have hlow := (Nat.div_eq_zero_iff_lt (Nat.pow_pos (by decide))).mp
            (hzero.mp hnone)
          obtain ⟨m, hm, heq, hspec⟩ := ih (Nat.le_of_succ_le hj) hlow
          exact ⟨m, Nat.le_succ_of_le hm, heq, hspec⟩
      case isFalse hsome =>
          have hhigh : ¬ n < 256 ^ (j + 1) := fun hlow =>
            hsome (hzero.mpr (Nat.div_eq_of_lt hlow))
          exact ⟨j + 1, Nat.le_refl _, rfl, hn,
            .inr (Nat.le_of_not_lt hhigh)⟩

/-- The height bytes are the height as a script number. -/
theorem heightBytes_eq {height : U64} (h : 0 < height.toNat) :
    heightBytes height = scriptNum height.toNat := by
  obtain ⟨m, hm, hlen, hlt, hle⟩ := heightLen_spec 7 (by decide)
    (show height.toNat < 256 ^ 8 from height.isLt)
  have hlow : 256 ^ m ≤ height.toNat := by
    rcases hle with rfl | hle
    · exact h
    · exact hle
  rw [← padSign_leBytes hlt hlow,
    ← take_leBytes height.toNat (show m + 1 ≤ 8 by omega), ← hlen]
  rfl

/-- From 17 on, the script of the input is a push and the extranonce. -/
theorem scriptSig_eq {height : U64} (h : 17 ≤ height.toNat)
    (extranonce : Bytes) :
    BitVec.ofNat 8 (heightBytes height).length
        :: heightBytes height ++ extranonce
      = pushNum height.toNat ++ extranonce := by
  rw [heightBytes_eq (by omega), pushNum, if_neg (by omega),
    if_neg (by omega)]

-- ========================================================== the commitment

/-- What a template commits to: nothing, or the bytes its text spells. -/
def CommitsTo (field : Option Text) (commitment : Option Bytes) : Prop :=
  match field with
  | none => commitment = none
  | some commitmentHex => commitmentHex ≠ [] ∧ commitment.isSome
      ∧ Hex.decode commitmentHex = commitment

theorem CommitsTo.eq {template : BlockTemplate} {commitment : Option Bytes}
    (h : CommitsTo template.defaultWitnessCommitment commitment) :
    template.commitment = commitment
      ∧ ∃ bytes, commitmentOutput template = some bytes := by
  unfold CommitsTo at h
  unfold BlockTemplate.commitment commitmentOutput
  cases hc : template.defaultWitnessCommitment with
  | none =>
      rw [hc] at h
      exact ⟨h.symm, [], rfl⟩
  | some commitmentHex =>
      rw [hc] at h
      obtain ⟨hne, hsome, hdecode⟩ := h
      obtain ⟨script, rfl⟩ := Option.isSome_iff_exists.mp hsome
      have hempty : commitmentHex.isEmpty = false :=
        List.isEmpty_eq_false_iff.mpr hne
      dsimp only
      rw [hempty, hdecode]
      exact ⟨rfl, _, rfl⟩

theorem createCoinbase_some {template : BlockTemplate} {bytes : Bytes}
    (poolAddressScript : Bytes)
    (h : commitmentOutput template = some bytes) :
    ∃ coinbase2, createCoinbase template poolAddressScript
      = some (coinbase1 template, coinbase2) := by
  rw [createCoinbase, h]
  exact ⟨_, rfl⟩

-- ============================================================ the coinbase

/-- A coinbase as it should be: one input that spends nothing, its script
the height and the extranonce, the outputs given and no locktime. -/
structure CoinbaseFor (template : BlockTemplate) (poolAddressScript : Bytes)
    (commitment : Option Bytes) (extranonce : Bytes) (t : Tx) : Prop where
  input : ∃ sequence, t.inputs
    = [⟨List.replicate 32 0 ++ List.replicate 4 0xff,
        pushNum template.height.toNat ++ extranonce, sequence⟩]
  outputs : t.outputs = ⟨template.coinbasevalue.toNat, poolAddressScript⟩
    :: commitment.toList.map fun script => ⟨0, script⟩
  lockTime : t.lockTime = 0

theorem coinbaseFor {template : BlockTemplate}
    {poolAddressScript extranonce : Bytes} {commitment : Option Bytes}
    (hheight : 17 ≤ template.height.toNat) (hpayout : poolAddressScript ≠ [])
    (hcommitment : template.commitment = commitment) :
    CoinbaseFor template poolAddressScript commitment extranonce
      (coinbaseTx template poolAddressScript extranonce) := by
  constructor
  case input =>
      refine ⟨0xffffffff, ?_⟩
      rw [← scriptSig_eq hheight extranonce]
      rfl
  case outputs =>
      have hscript : payoutScript poolAddressScript = poolAddressScript := by
        rw [payoutScript, List.isEmpty_eq_false_iff.mpr hpayout]
        rfl
      rw [← hcommitment]
      show _ :: commitmentOutputs template = _
      rw [hscript]
      rfl
  case lockTime => rfl

/-- The length `coinbase1` declares is that of height push and twelve
bytes. -/
theorem declared_length (template : BlockTemplate) {extranonce : Bytes}
    (hlen : extranonce.length = 12) :
    (coinbase1 template)[41]? = some (BitVec.ofNat 8
      (BitVec.ofNat 8 (heightBytes template.height).length
        :: heightBytes template.height ++ extranonce).length) := by
  have hlength : (BitVec.ofNat 8 (heightBytes template.height).length
      :: heightBytes template.height ++ extranonce).length
        = 1 + (heightBytes template.height).length + 12 := by
    simp only [List.cons_append, List.length_cons, List.length_append, hlen]
    omega
  rw [hlength]
  rfl

/-- Where the coinbase stands in an assembled block. -/
theorem assembleBlock_read {header coinbase1 extranonce coinbase2 : Bytes}
    {transactionData : List Text} {txs : List Bytes} {w : WireTx}
    {size : Codec Nat} (hdata : transactionData.mapM Hex.decode = some txs)
    (hvalid : (Format.wireTx size).valid w)
    (hcoinbase : coinbaseBytes (coinbase1 ++ extranonce ++ coinbase2) true
      = (Format.wireTx size).write w) :
    ∃ blockHex rest, assembleBlock header coinbase1 extranonce coinbase2 true
        transactionData = some blockHex
      ∧ Hex.decode blockHex = some (header
        ++ encodeVarint (BitVec.ofNat 64 (1 + transactionData.length))
        ++ rest)
      ∧ (Format.wireTx size).read rest = some (w, txs.flatten) := by
  refine ⟨_, (Format.wireTx size).write w ++ txs.flatten, ?_,
    Hex.decode_encode _, read_write _ hvalid _⟩
  rw [assembleBlock, hdata, hcoinbase]
  show some (Hex.encode _) = some (Hex.encode _)
  rw [List.append_assoc (header ++ _)]

/-- The server's coinbase round trip, for every extranonce. -/
theorem coinbase_round_trip (H : HashFn) {template : BlockTemplate}
    {poolAddressScript : Bytes} {commitment : Option Bytes}
    (hheight : 17 ≤ template.height.toNat) (hpayout : poolAddressScript ≠ [])
    (hpayoutLen : poolAddressScript.length < 2 ^ 32)
    (hcommits : CommitsTo template.defaultWitnessCommitment commitment)
    (hcommitmentLen : ∀ script ∈ commitment, script.length < 2 ^ 32) :
    ∃ coinbase1 coinbase2,
      createCoinbase template poolAddressScript = some (coinbase1, coinbase2)
      ∧ ∀ extranonce, extranonce.length = 12 → ∃ t,
        (Format.tx fullSize).parse (coinbase1 ++ extranonce ++ coinbase2)
            = some t
          ∧ CoinbaseFor template poolAddressScript commitment extranonce t
          ∧ (∀ i ∈ t.inputs, i.scriptSig.length < 0xfd
            ∧ coinbase1[41]? = some (BitVec.ofNat 8 i.scriptSig.length))
          ∧ ∃ w, (Format.wireTx fullSize).parse
                (coinbaseBytes (coinbase1 ++ extranonce ++ coinbase2) true)
              = some w
            ∧ w.witness = some [[List.replicate 32 0]]
            ∧ (Format.tx fullSize).write w.tx
              = coinbase1 ++ extranonce ++ coinbase2
            ∧ (∀ branches,
              calculateMerkleRoot H coinbase1 coinbase2 extranonce branches
                = branches.foldl (hashPair H)
                  (sha256d H ((Format.tx fullSize).write w.tx)))
            ∧ ∀ header transactionData txs,
              transactionData.mapM Hex.decode = some txs →
              ∃ blockHex rest, assembleBlock header coinbase1 extranonce
                  coinbase2 true transactionData = some blockHex
                ∧ Hex.decode blockHex = some (header ++ encodeVarint
                    (BitVec.ofNat 64 (1 + transactionData.length)) ++ rest)
                ∧ (Format.wireTx fullSize).read rest
                  = some (w, txs.flatten) := by
  obtain ⟨hcommitment, bytes, hbytes⟩ := hcommits.eq
  obtain ⟨coinbase2, hcreate⟩ := createCoinbase_some poolAddressScript hbytes
  refine ⟨_, _, hcreate, fun extranonce hlen => ?_⟩
  -- every size that occurs is below 32 bits, where full and compact agree
  have hfits : ∀ n, Occurs template poolAddressScript n → n < 2 ^ 32 := by
    intro n hn
    have hle : n ≤ 2 ^ 32 - 1 := by
      refine hn.le (by decide) (Nat.le_pred_of_lt hpayoutLen) ?_
      intro script hscript
      exact Nat.le_pred_of_lt
        (hcommitmentLen script (hcommitment ▸ hscript))
    omega
  have hsmall : ∀ n, n < 0xfd → n < 2 ^ 32 := fun n hn => by omega
  have hsize : ∀ n, Occurs template poolAddressScript n →
      fullSize.write n = encodeScriptLen n := by
    intro n hn
    rw [fullSize_write (hfits n hn), encodeScriptLen_eq]
  have hone : ∀ n, n < 0xfd → fullSize.write n = leBytes 1 n := by
    intro n hn
    rw [fullSize_write (hsmall n hn), (compactSize_small hn).1]
  have hfull : ∀ n, Occurs template poolAddressScript n →
      fullSize.valid n :=
    fun n hn => fullSize_valid (hfits n hn)
  have hfullSmall : ∀ n, n < 0xfd → fullSize.valid n :=
    fun n hn => fullSize_valid (hsmall n hn)
  have hinput : (coinbaseTx template poolAddressScript
      extranonce).inputs.length = 1 := rfl
  have hwritten := coinbase_written hsize hcreate hlen
  have hvalid := coinbase_wellSized hfull hlen
  have hwire := wireCoinbase_wellSized hfullSmall hinput hvalid true
  have hspliced := coinbaseBytes_written hone hinput true
  rw [← hwritten] at hspliced
  refine ⟨_, parse_eq_some.mpr ⟨hvalid, hwritten⟩,
    coinbaseFor hheight hpayout hcommitment, ?_,
    _, parse_eq_some.mpr ⟨hwire, hspliced⟩, rfl, hwritten.symm, ?_, ?_⟩
  · intro i hi
    rw [List.mem_singleton.mp hi]
    refine ⟨?_, declared_length template hlen⟩
    have := length_heightBytes_le template.height
    simp only [List.cons_append, List.length_cons, List.length_append, hlen]
    omega
  · intro branches
    show List.foldl _ _ branches = List.foldl _ _ branches
    rw [hwritten]
    rfl
  · intro header transactionData txs hdata
    exact assembleBlock_read hdata hwire hspliced

/-- A template at a height of three bytes, the third of them without a
sign bit, with a commitment. -/
def halvingTemplate : BlockTemplate where
  version := 0x20000000
  previousblockhash := List.replicate 64 '0'
  transactions := []
  coinbasevalue := 312500000
  mintime := 0
  curtime := 0
  bits := "1d00ffff".toList
  height := 840000
  defaultWitnessCommitment := some "6a24aa21a9ed".toList

theorem coinbase_round_trip_halving :
    ∃ coinbase1 coinbase2,
      createCoinbase halvingTemplate [0x51] = some (coinbase1, coinbase2)
      ∧ ∀ extranonce, extranonce.length = 12 → ∃ t,
        (Format.tx fullSize).parse (coinbase1 ++ extranonce ++ coinbase2)
            = some t
          ∧ CoinbaseFor halvingTemplate [0x51]
            (some [0x6a, 0x24, 0xaa, 0x21, 0xa9, 0xed]) extranonce t := by
  have hcommits : CommitsTo halvingTemplate.defaultWitnessCommitment
      (some [0x6a, 0x24, 0xaa, 0x21, 0xa9, 0xed]) :=
    ⟨by decide, rfl, by decide⟩
  have hscript : ([0x51] : Bytes) ≠ [] ∧ ([0x51] : Bytes).length < 2 ^ 32 :=
    ⟨by decide, by decide⟩
  have hcommitment : ∀ script ∈ some ([0x6a, 0x24, 0xaa, 0x21, 0xa9,
      0xed] : Bytes), script.length < 2 ^ 32 := by
    intro script hsome
    cases hsome
    decide
  obtain ⟨coinbase1, coinbase2, hcreate, hall⟩ := coinbase_round_trip sha256
    (by decide) hscript.1 hscript.2 hcommits hcommitment
  refine ⟨coinbase1, coinbase2, hcreate, fun extranonce hlen => ?_⟩
  obtain ⟨t, hparse, hfor, -⟩ := hall extranonce hlen
  exact ⟨t, hparse, hfor⟩

end M1n3Protocol
