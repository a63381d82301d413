/-
What the template page shows of the jobs a server has registered.

# The way of the bytes

A job's bytes are written in base64 by the indexer and in hex by the page,
some of them backwards; none of it loses anything, so the page has the
bytes of the job. The coinbase it shows is put together from the halves:
the script length declared in the first leaves room for twelve bytes, and
the page writes zeros there, which is the coinbase the server makes its
`merkleRootBase` from.

# Whose fields they are

Tip and height of a job are those of one template, coinbase and branches
those of another, or the same one. The page tells which it is: its check
mark compares the height that was registered with the height the coinbase
pushes.
-/
import M1n3Protocol.Lib.JsText
import M1n3Protocol.Proofs.CoinbaseRoundTrip
import M1n3Protocol.Proofs.CompactTargets
import M1n3Protocol.Proofs.JobTip
import M1n3Protocol.Web.Explorer

namespace M1n3Protocol.Web.Explorer

open BitcoinTx Codec Js
open Hex (encode_cons encode_append length_encode lower_encode)
open Keeper (Json)

-- ===================================================================== hex

/-- A byte as the page reads it. -/
def read (b : BitVec 8) : Option Int := some b.toNat

theorem hexToBytes_encode (bs : Bytes) :
    hexToBytes (Hex.encode bs) = bs.map read := by
  induction bs with
  | nil => rfl
  | cons b bs ih =>
      have hb : b.toNat < 256 := b.isLt
      have hbyte : 16 * (b.toNat / 16) + b.toNat % 16 = b.toNat :=
        Nat.div_add_mod b.toNat 16
      rw [encode_cons, hexToBytes, ih,
        parseInt16_pair (Hex.value_digitChar (by omega))
          (Hex.value_digitChar (by omega)), hbyte]
      rfl

theorem isLineEnd_digit {n : Nat} (h : n < 16) :
    isLineEnd n.digitChar = false := by
  have hall : ∀ k < 16, isLineEnd k.digitChar = false := by decide +kernel
  exact hall n h

theorem pairs_encode (bs : Bytes) :
    pairs (Hex.encode bs) = bs.map fun b => Hex.encode [b] := by
  induction bs with
  | nil => rfl
  | cons b bs ih =>
      have hb : b.toNat < 256 := b.isLt
      rw [encode_cons, pairs, isLineEnd_digit (by omega),
        isLineEnd_digit (by omega), ih]
      rfl

theorem flatten_encode (bs : Bytes) :
    (bs.map fun b => Hex.encode [b]).flatten = Hex.encode bs := by
  induction bs with
  | nil => rfl
  | cons b bs ih =>
      rw [List.map_cons, List.flatten_cons, ih]
      rfl

/-- Hex is reversed byte by byte. -/
theorem reverseHex_encode (bs : Bytes) :
    reverseHex (Hex.encode bs) = Hex.encode bs.reverse := by
  unfold reverseHex
  rw [pairs_encode]
  dsimp only
  split
  case isTrue h =>
      rw [List.map_eq_nil_iff.mp h]
      rfl
  case isFalse =>
      rw [← List.map_reverse, flatten_encode]

-- ============================================================= the indexer

theorem b64hex_encode (bs : Bytes) :
    b64hex (.string (Base64.encode bs)) = Hex.encode bs := by
  rw [b64hex, Base64.decode_encode]
  rfl

/-- Vectors that are not empty all arrive. -/
theorem b64hexArray_encode {vals : List Bytes}
    (h : ∀ bs ∈ vals, bs ≠ []) :
    b64hexArray (.array (vals.map fun bs => .string (Base64.encode bs)))
      = vals.map Hex.encode := by
  rw [b64hexArray, List.map_map]
  have hmap : (b64hex ∘ fun bs => .string (Base64.encode bs))
      = Hex.encode := funext b64hex_encode
  rw [hmap, List.filter_eq_self]
  intro s hs
  obtain ⟨bs, hbs, rfl⟩ := List.mem_map.mp hs
  have hpos := List.length_pos_iff.mpr (h bs hbs)
  rw [length_encode]
  exact decide_eq_true (by omega)

theorem parseU64_digits (n : Nat) :
    parseU64 (.string (Nat.toDigits 10 n)) = n := by
  have hdigits := Decimal.Digits.toDigits n
  have hne : Nat.toDigits 10 n ≠ [] := Nat.toDigits_ne_nil
  have hdrop : (Nat.toDigits 10 n).dropWhile isSpace
      = Nat.toDigits 10 n := by
    obtain ⟨c, cs, hcs⟩ := List.exists_cons_of_ne_nil hne
    have hc : c.isDigit := hdigits c (hcs ▸ List.mem_cons_self)
    rw [hcs, List.dropWhile_cons_of_neg]
    rw [isSpace_of_isDigit hc]
    exact Bool.false_ne_true
  have htake : (Nat.toDigits 10 n).takeWhile Char.isDigit
      = Nat.toDigits 10 n :=
    List.takeWhile_eq_self_iff.mpr hdigits
  rw [parseU64, parseInt10, hdrop, stripSign_digits hdigits]
  dsimp only
  rw [htake, if_neg hne, Nat.ofDigitChars_ten_toDigits]
  rfl

-- ============================================================== the height

theorem getLast?_leBytes (m n : Nat) :
    (leBytes (m + 1) n).getLast? = some (BitVec.ofNat 8 (n / 256 ^ m)) := by
  induction m generalizing n with
  | zero =>
      rw [Nat.pow_zero, Nat.div_one]
      rfl
  | succ m ih =>
      rw [leBytes, leBytes, List.getLast?_cons_cons, ← leBytes, ih,
        Nat.div_div_eq_div_mul, Nat.pow_succ']

theorem leNat_padSign (bs : Bytes) : leNat (padSign bs) = leNat bs := by
  unfold padSign
  split
  case isTrue =>
      rw [leNat_append]
      rfl
  case isFalse => rfl

/-- The sign takes a byte where the top bit is set. -/
theorem length_padSign {m n : Nat} (h : n < 256 ^ (m + 1)) :
    (padSign (leBytes (m + 1) n)).length
      = if 0x80 * 256 ^ m ≤ n then m + 2 else m + 1 := by
  have hpow : 0 < 256 ^ m := Nat.pow_pos (by decide)
  have hdigit : n / 256 ^ m < 0x100 := by
    rw [Nat.div_lt_iff_lt_mul hpow, Nat.mul_comm, ← Nat.pow_succ]
    exact h
  have hbit : 0x80 ≤ n / 256 ^ m ↔ 0x80 * 256 ^ m ≤ n :=
    Nat.le_div_iff_mul_le hpow
  unfold padSign
  rw [getLast?_leBytes]
  simp only [Option.any_some, decide_eq_true_eq, topBit_iff hdigit, hbit]
  split
  case isTrue => rw [List.length_append, length_leBytes, List.length_singleton]
  case isFalse => exact length_leBytes (m + 1) n

/-- Some bytes of the height, and what the sign takes. -/
theorem heightBytes_pad (height : U64) :
    ∃ m, height.toNat < 256 ^ (m + 1) ∧ (m = 0 ∨ 256 ^ m ≤ height.toNat)
      ∧ M1n3Protocol.heightBytes height
        = padSign (leBytes (m + 1) height.toNat) := by
  obtain ⟨m, hm, hlen, hlt, hle⟩ := heightLen_spec 7 (by decide)
    (show height.toNat < 256 ^ 8 from height.isLt)
  refine ⟨m, hlt, hle, ?_⟩
  rw [← take_leBytes height.toNat (show m + 1 ≤ 8 by omega), ← hlen]
  rfl

theorem leNat_heightBytes (height : U64) :
    leNat (M1n3Protocol.heightBytes height) = height.toNat := by
  obtain ⟨m, hlt, -, heq⟩ := heightBytes_pad height
  rw [heq, leNat_padSign, leNat_leBytes hlt]

theorem heightBytes_pos (height : U64) :
    0 < (M1n3Protocol.heightBytes height).length := by
  obtain ⟨m, hlt, -, heq⟩ := heightBytes_pad height
  rw [heq, length_padSign hlt]
  split <;> omega

/-- Four bytes of a script number hold 31 bits. -/
theorem length_heightBytes_le_four (height : U64) :
    (M1n3Protocol.heightBytes height).length ≤ 4 ↔ height.toNat < 2 ^ 31 := by
  obtain ⟨m, hlt, hle, heq⟩ := heightBytes_pad height
  rw [heq, length_padSign hlt]
  rcases Nat.lt_trichotomy m 3 with hm | rfl | hm
  · have hpow : 256 ^ (m + 1) ≤ 256 ^ 3 :=
      Nat.pow_le_pow_right (by decide) hm
    refine iff_of_true ?_ (by omega)
    split <;> omega
  · split <;> omega
  · have hpow : 256 ^ 4 ≤ 256 ^ m := Nat.pow_le_pow_right (by decide) hm
    refine iff_of_false ?_ (by omega)
    split <;> omega

/-- Bytes shifted into place one after the other. -/
theorem heightOr_read (bs : Bytes) :
    ∀ (i : Nat) (v : BitVec 32), i + bs.length ≤ 4 → v.toNat < 256 ^ i →
      (heightOr v i (bs.map read)).toNat = v.toNat + 256 ^ i * leNat bs := by
  induction bs with
  | nil =>
      intro i v _ _
      rfl
  | cons b bs ih =>
      intro i v hlen hv
      rw [List.length_cons] at hlen
      have hb : b.toNat < 256 := b.isLt
      have hword : b.toNat % 2 ^ 32 = b.toNat :=
        Nat.mod_eq_of_lt (by omega)
      have hpow : 256 ^ i = 2 ^ (8 * i) := by
        rw [Nat.pow_mul]
      have hfit : 256 ^ (i + 1) ≤ 2 ^ 32 :=
        Nat.pow_le_pow_right (n := 256) (by decide)
          (show i + 1 ≤ 4 by omega)
      have hshift : b.toNat * 256 ^ i < 2 ^ 32 := by
        refine Nat.lt_of_lt_of_le ?_ hfit
        rw [Nat.pow_succ, Nat.mul_comm]
        exact Nat.mul_lt_mul_of_pos_left hb (Nat.pow_pos (by decide))
      have hor : (v ||| toInt32 ((read b).getD 0) <<< (8 * i)).toNat
          = v.toNat + 256 ^ i * b.toNat := by
        have hread : toInt32 ((read b).getD 0) = BitVec.ofNat 32 b.toNat :=
          toInt32_natCast b.toNat
        rw [hread, BitVec.toNat_or, BitVec.toNat_shiftLeft,
          BitVec.toNat_ofNat, hword, Nat.shiftLeft_eq, ← hpow,
          Nat.mod_eq_of_lt hshift, Nat.or_comm,
          Nat.mul_comm, hpow,
          ← Nat.two_pow_add_eq_or_of_lt (hpow ▸ hv)]
        exact Nat.add_comm _ _
      have hlt : v.toNat + 256 ^ i * b.toNat < 256 ^ (i + 1) := by
        have hle : 256 ^ i * (b.toNat + 1) ≤ 256 ^ i * 256 :=
          Nat.mul_le_mul_left _ hb
        rw [Nat.pow_succ]
        rw [Nat.mul_add, Nat.mul_one] at hle
        omega
      rw [List.map_cons, heightOr, ih (i + 1) _ (by omega) (hor ▸ hlt), hor,
        leNat, Nat.mul_add, Nat.pow_succ, Nat.mul_assoc, Nat.add_assoc]

-- ========================================================= the first half

variable {template : BlockTemplate}

/-- What `coinbase1` holds behind the length of the script. -/
theorem drop_coinbase1 (template : BlockTemplate) :
    (coinbase1 template).drop 42
      = BitVec.ofNat 8 (M1n3Protocol.heightBytes template.height).length
        :: M1n3Protocol.heightBytes template.height := rfl

theorem length_coinbase1 (template : BlockTemplate) :
    (coinbase1 template).length
      = 43 + (M1n3Protocol.heightBytes template.height).length := by
  have hdrop := congrArg List.length (drop_coinbase1 template)
  rw [List.length_drop, List.length_cons] at hdrop
  omega

/-- The two lengths in `coinbase1`: of the script, with the twelve bytes
to come, and of the height. -/
theorem getD_coinbase1 (template : BlockTemplate) :
    ((coinbase1 template).map read).getD 41 none
        = some (((M1n3Protocol.heightBytes template.height).length + 13
            : Nat) : Int)
      ∧ ((coinbase1 template).map read).getD 42 none
        = some ((M1n3Protocol.heightBytes template.height).length : Int) := by
  have hle := length_heightBytes_le template.height
  constructor
  · show read (BitVec.ofNat 8
      (1 + (M1n3Protocol.heightBytes template.height).length + 12)) = _
    rw [read, BitVec.toNat_ofNat, Nat.mod_eq_of_lt (by omega)]
    congr 2
    omega
  · show read (BitVec.ofNat 8
      (M1n3Protocol.heightBytes template.height).length) = _
    rw [read, BitVec.toNat_ofNat, Nat.mod_eq_of_lt (by omega)]

/-- There is nothing behind the height. -/
theorem decodeCoinbaseAscii_coinbase1 (template : BlockTemplate) :
    decodeCoinbaseAscii (Hex.encode (coinbase1 template)) = [] := by
  have hlen := length_coinbase1 template
  obtain ⟨hscript, hheight⟩ := getD_coinbase1 template
  have hget : ((coinbase1 template).map read)[42]?
      = some (some
          ((M1n3Protocol.heightBytes template.height).length : Int)) := by
    rw [← hheight, List.getD_eq_getElem?_getD]
    rfl
  unfold decodeCoinbaseAscii
  rw [length_encode, if_neg (by omega), hexToBytes_encode]
  dsimp only
  rw [List.length_map, if_neg (by omega), hscript]
  dsimp only
  rw [if_neg (by omega), hget]
  dsimp only
  rw [if_pos]
  rw [Option.map_some, Option.any_some, hlen]
  exact decide_eq_true (by omega)

/-- The height is shown as far as 31 bits go. -/
theorem parseCoinbaseHeight_coinbase1 (template : BlockTemplate) :
    parseCoinbaseHeight (Hex.encode (coinbase1 template))
      = if template.height.toNat < 2 ^ 31 then
          some (template.height.toNat : Int)
        else none := by
  have hlen := length_coinbase1 template
  have hpos := heightBytes_pos template.height
  have hfour := length_heightBytes_le_four template.height
  obtain ⟨-, hheight⟩ := getD_coinbase1 template
  unfold parseCoinbaseHeight
  rw [length_encode, if_neg (by omega), hexToBytes_encode]
  dsimp only
  rw [List.length_map, if_neg (by omega), hheight]
  dsimp only
  by_cases hsmall : template.height.toNat < 2 ^ 31
  · have hle := hfour.mpr hsmall
    have htake : (((coinbase1 template).map read).drop 43).take
        ((M1n3Protocol.heightBytes template.height).length : Int).toNat
          = (M1n3Protocol.heightBytes template.height).map read := by
      rw [Int.toNat_natCast]
      show ((M1n3Protocol.heightBytes template.height).map read).take _ = _
      rw [List.take_of_length_le (by rw [List.length_map])]
    have hvalue := heightOr_read (M1n3Protocol.heightBytes template.height) 0 0
      (by omega) (by decide)
    rw [leNat_heightBytes] at hvalue
    rw [if_neg (by omega), if_pos hsmall, htake,
      BitVec.toInt_eq_toNat_of_lt (by rw [hvalue]; simp; omega), hvalue]
    simp
  · have hgt : 4 < (M1n3Protocol.heightBytes template.height).length := by
      omega
    rw [if_pos (by omega), if_neg hsmall]

/-- The page puts zeros where the extranonce was cut out. -/
theorem reconstruct_coinbase (template : BlockTemplate) (coinbase2 : Bytes)
    (fallbackLen : Nat) :
    reconstructCoinbaseHex (Hex.encode (coinbase1 template))
        (Hex.encode coinbase2) fallbackLen
      = Hex.encode (coinbase1 template ++ List.replicate 12 0
        ++ coinbase2) := by
  have hlen := length_coinbase1 template
  obtain ⟨hscript, -⟩ := getD_coinbase1 template
  have hgap : inferExtranonceGap (Hex.encode (coinbase1 template))
      = some 12 := by
    have hne : Hex.encode (coinbase1 template) ≠ [] := by
      rw [← List.length_pos_iff, length_encode]
      omega
    unfold inferExtranonceGap
    rw [if_neg hne, hexToBytes_encode]
    dsimp only
    rw [List.length_map, if_neg (by omega), hscript]
    dsimp only
    rw [if_pos (by omega)]
    congr 1
    omega
  rw [reconstructCoinbaseHex, hgap, encode_append, encode_append]
  rfl

-- ============================================================ the outputs

/-- A commitment as Bitcoin Core writes it: a tag, pushed with a root. -/
def commitmentScript (root : Bytes) : Bytes :=
  [0x6a, 0x24, 0xaa, 0x21, 0xa9, 0xed] ++ root

/-- How the output of a commitment is shown. -/
def commitmentOutputShown (script : Bytes) : ParsedOutput :=
  .nulldata 0 (Hex.encode (script.drop 2)) (Hex.encode script)
    (some ("Segwit Commitment".toList, some (Hex.encode (script.drop 6))))

theorem parseOutput_commitment (js : BitcoinJs) {root : Bytes}
    (h : root.length = 32) :
    parseOutput js ⟨0, commitmentScript root⟩
      = commitmentOutputShown (commitmentScript root) := by
  have hdata : opReturnData ((commitmentScript root).drop 1)
      = (commitmentScript root).drop 2 := by
    show ([0xaa, 0x21, 0xa9, 0xed] ++ root).take 36 = _
    exact List.take_of_length_le (by
      rw [List.length_append, h]
      decide)
  have htag : Hex.encode ((commitmentScript root).drop 2)
      = "aa21a9ed".toList ++ Hex.encode root := by
    show Hex.encode ([0xaa, 0x21, 0xa9, 0xed] ++ root) = _
    rw [encode_append]
    congr 1
  have hdecoded : decodeOpReturn ((commitmentScript root).drop 2)
      = some ("Segwit Commitment".toList, some (Hex.encode root)) := by
    unfold decodeOpReturn
    rw [htag, if_neg (by simp), if_pos]
    · rfl
    · refine ⟨List.prefix_append _ _, ?_⟩
      rw [List.length_append, length_encode, h]
      decide
  show ParsedOutput.nulldata 0
    (Hex.encode (opReturnData ((commitmentScript root).drop 1)))
    (Hex.encode (commitmentScript root))
    (decodeOpReturn (opReturnData ((commitmentScript root).drop 1))) = _
  rw [hdata, hdecoded]
  rfl

/-- `bitcoinjs-lib` reads what is in the format, with a version that is no
negative number and values that are numbers exactly. -/
def BitcoinJs.Reads (js : BitcoinJs) : Prop :=
  ∀ w : WireTx, (Format.wireTx fullSize).valid w →
    w.tx.version < 2 ^ 31 → (∀ o ∈ w.tx.outputs, o.value < 2 ^ 53) →
    js.fromHex (Hex.encode ((Format.wireTx fullSize).write w)) = some w

-- ========================================================= the other fields

/-- A template as Bitcoin Core answers with one: hashes in lower case, and
the commitment behind its tag. -/
structure FromCore (t : BlockTemplate) : Prop where
  prevBlockHash : Hex.Lower t.previousblockhash
  txids : ∀ tx ∈ t.transactions,
    Hex.Lower tx.txid ∧ (Hex.decodeFixed 32 tx.txid).isSome
  coinbasevalue : t.coinbasevalue.toNat < 2 ^ 53
  commitment : ∀ commitmentHex,
    t.defaultWitnessCommitment = some commitmentHex →
      ∃ root, root.length = 32
        ∧ commitmentHex = Hex.encode (commitmentScript root)

theorem prevBlockHash_shown {t : BlockTemplate} {prevBlockHash : Bytes}
    (hcore : FromCore t) (h : t.prevBlockHash = some prevBlockHash) :
    Hex.encode prevBlockHash ≠ []
      ∧ reverseHex (Hex.encode prevBlockHash) = t.previousblockhash := by
  obtain ⟨bs, hbs, rfl⟩ := Option.map_eq_some_iff.mp h
  obtain ⟨hdecode, hlen⟩ := Hex.decodeFixed_eq_some.mp hbs
  constructor
  · rw [← List.length_pos_iff, length_encode, List.length_reverse]
    omega
  · rw [reverseHex_encode, List.reverse_reverse,
      Hex.encode_of_decode hcore.prevBlockHash hdecode]

/-- The branches begin with the first transaction. -/
theorem head?_branches (H : HashFn) (t : BlockTemplate) :
    (calculateMerkleBranches H t).head? = t.txids.head? := by
  unfold calculateMerkleBranches Merkle.branches
  cases t.txids <;> rfl

theorem branches_ne_nil {H : HashFn} {t : BlockTemplate} :
    ∀ b ∈ calculateMerkleBranches H t, b ≠ [] := by
  refine Merkle.branches_all (hashPair H) (fun x y => ?_) fun b hb => ?_
  · exact List.ne_nil_of_length_eq_add_one (length_sha256d H (x ++ y))
  · obtain ⟨tx, -, htx⟩ := List.mem_filterMap.mp hb
    obtain ⟨bs, hbs, rfl⟩ := Option.map_eq_some_iff.mp htx
    have hlen := (Hex.decodeFixed_eq_some.mp hbs).2
    exact List.ne_nil_of_length_eq_add_one (n := 31)
      (by rw [List.length_reverse, hlen])

/-- The first transaction, or a note that there is none. -/
def firstTxText (t : BlockTemplate) : Text :=
  match t.transactions with
  | [] => "empty block".toList
  | tx :: _ => tx.txid

theorem firstTx_shown (H : HashFn) {t : BlockTemplate} (hcore : FromCore t) :
    computeFirstTransaction
        (((calculateMerkleBranches H t).map Hex.encode).map reverseHex)
      = firstTxText t
    ∧ (firstTxText t = "empty block".toList ↔ t.transactions = []) := by
  unfold computeFirstTransaction firstTxText
  rw [List.head?_map, List.head?_map, head?_branches, BlockTemplate.txids]
  have htxids := hcore.txids
  cases htxs : t.transactions with
  | nil => exact ⟨rfl, iff_of_true rfl rfl⟩
  | cons tx txs =>
      obtain ⟨hlower, hsome⟩ := htxids tx (htxs ▸ List.mem_cons_self)
      obtain ⟨bs, hbs⟩ := Option.isSome_iff_exists.mp hsome
      obtain ⟨hdecode, hlen⟩ := Hex.decodeFixed_eq_some.mp hbs
      have htext := Hex.encode_of_decode hlower hdecode
      have hlength : tx.txid.length = 64 := by
        rw [← htext, length_encode, hlen]
      rw [List.filterMap_cons, hbs]
      constructor
      · show (if (reverseHex (Hex.encode bs.reverse)).length < 64
          then _ else _) = _
        rw [reverseHex_encode, List.reverse_reverse, htext,
          if_neg (by omega)]
      · refine iff_of_false (fun h => ?_) (List.cons_ne_nil _ _)
        have htxid : tx.txid = "empty block".toList := h
        rw [htxid] at hlength
        exact absurd hlength (by decide)

-- ============================================================ the coinbase

theorem FromCore.commitment_eq {t : BlockTemplate} (h : FromCore t)
    {script : Bytes} (hscript : script ∈ t.commitment) :
    ∃ root, root.length = 32 ∧ script = commitmentScript root := by
  unfold BlockTemplate.commitment at hscript
  cases hfield : t.defaultWitnessCommitment with
  | none =>
      rw [hfield] at hscript
      cases hscript
  | some commitmentHex =>
      obtain ⟨root, hroot, htext⟩ := h.commitment commitmentHex hfield
      rw [hfield] at hscript
      dsimp only at hscript
      split at hscript
      case isTrue => cases hscript
      case isFalse =>
          rw [htext, Hex.decode_encode] at hscript
          cases hscript
          exact ⟨root, hroot, rfl⟩

/-- How the coinbase of a template is shown. -/
def coinbaseShown (js : BitcoinJs) (poolAddressScript : Bytes)
    (t : BlockTemplate) : ParsedCoinbase where
  txVersion := 1
  inputSequence := some 0xffffffff
  locktime := 0
  witnessCommitmentNonce := none
  outputs := parseOutput js
      ⟨t.coinbasevalue.toNat, payoutScript poolAddressScript⟩
    :: t.commitment.toList.map commitmentOutputShown
  totalOutputSats := t.coinbasevalue.toNat

theorem sum_commitmentOutputs (t : BlockTemplate) :
    ((commitmentOutputs t).map TxOut.value).sum = 0 := by
  unfold commitmentOutputs
  cases t.commitment <;> rfl

/-- The halves and zeros between them are read as the coinbase that was
made. -/
theorem parseCoinbase_made {js : BitcoinJs} (hjs : js.Reads)
    {t : BlockTemplate} (hcore : FromCore t)
    {poolAddressScript coinbase1 coinbase2 : Bytes}
    (hpayout : poolAddressScript.length < 2 ^ 32)
    (hcreate : createCoinbase t poolAddressScript
      = some (coinbase1, coinbase2)) :
    parseCoinbase js (Hex.encode (coinbase1 ++ List.replicate 12 0
        ++ coinbase2))
      = some (coinbaseShown js poolAddressScript t) := by
  have hzeros : (List.replicate 12 0 : Bytes).length = 12 := rfl
  have hfits : ∀ n, Occurs t poolAddressScript n → n < 2 ^ 32 := by
    intro n hn
    have hle : n ≤ 2 ^ 32 - 1 := by
      refine hn.le (by decide) (Nat.le_pred_of_lt hpayout) ?_
      intro script hscript
      obtain ⟨root, hroot, rfl⟩ := hcore.commitment_eq hscript
      rw [commitmentScript, List.length_append, hroot]
      decide
    omega
  have hwrite : ∀ n, Occurs t poolAddressScript n →
      fullSize.write n = encodeScriptLen n := by
    intro n hn
    rw [fullSize_write (hfits n hn), encodeScriptLen_eq]
  have hvalid : ∀ n, Occurs t poolAddressScript n → fullSize.valid n :=
    fun n hn => fullSize_valid (hfits n hn)
  have hwritten := coinbase_written hwrite hcreate hzeros
  have hsized := coinbase_wellSized hvalid hzeros
  have hin : (coinbaseTx t poolAddressScript
      (List.replicate 12 0)).inputs ≠ [] := List.cons_ne_nil _ _
  obtain ⟨hold, hvalid_tx⟩ :
      (Format.wireTx fullSize).write ⟨_, none⟩ = (Format.tx fullSize).write _
        ∧ ((Format.wireTx fullSize).valid ⟨_, none⟩
          ↔ (Format.tx fullSize).valid _) := Format.wireTx_old hin
  have hvalues : ∀ o ∈ (coinbaseTx t poolAddressScript
      (List.replicate 12 0)).outputs, o.value < 2 ^ 53 := by
    intro o ho
    rcases List.mem_cons.mp ho with rfl | ho
    · exact hcore.coinbasevalue
    · obtain ⟨script, -, rfl⟩ := List.mem_map.mp ho
      exact Nat.two_pow_pos 53
  have hread := hjs _ (hvalid_tx.mpr hsized)
    (show 1 < 2 ^ 31 by decide) hvalues
  rw [hold, ← hwritten] at hread
  have hshown : (commitmentOutputs t).map (parseOutput js)
      = t.commitment.toList.map commitmentOutputShown := by
    unfold commitmentOutputs
    rw [List.map_map]
    refine List.map_congr_left fun script hscript => ?_
    obtain ⟨root, hroot, rfl⟩ :=
      hcore.commitment_eq (Option.mem_toList.mp hscript)
    exact parseOutput_commitment js hroot
  rw [parseCoinbase, hread]
  show some (ParsedCoinbase.mk 1 (some 0xffffffff) 0 none
    (_ :: (commitmentOutputs t).map (parseOutput js))
    (t.coinbasevalue.toNat
      + ((commitmentOutputs t).map TxOut.value).sum)) = _
  rw [hshown, sum_commitmentOutputs]
  rfl

-- ================================================================ the card

/-- The indexer's answer for a template: bytes in base64, a `u64` as text,
a `u32` as a number. -/
structure Indexed (t : TemplateArgs) (json : String → Json) : Prop where
  height : json "height" = .string (Nat.toDigits 10 t.height.toNat)
  prevBlockHash :
    json "prev_block_hash" = .string (Base64.encode t.prevBlockHash)
  coinbase1 : json "coinbase1" = .string (Base64.encode t.coinbase1)
  coinbase2 : json "coinbase2" = .string (Base64.encode t.coinbase2)
  merkleBranches : json "merkle_branches"
    = .array (t.merkleBranches.map fun b => .string (Base64.encode b))
  version : json "version" = .number (t.version.setWidth 64)
  nbits : json "nbits" = .number (t.nbits.setWidth 64)
  ntime : json "ntime" = .number (t.ntime.setWidth 64)

/-- A card with the tip of `t₀` and the coinbase of `t`. -/
structure Shows (js : BitcoinJs) (poolAddressScript : Bytes)
    (t₀ t : BlockTemplate) (card : Card) : Prop where
  prevHashDisplay : card.prevHashDisplay = t₀.previousblockhash
  firstTx : card.firstTx = firstTxText t
  isEmptyBlock : card.isEmptyBlock = true ↔ t.transactions = []
  coinbaseAscii : card.coinbaseAscii = []
  bip34Height : card.bip34Height = if t.height.toNat < 2 ^ 31 then
    some (t.height.toNat : Int) else none
  heightsAgree : card.heightsAgree = true
    ↔ t.height = t₀.height ∧ t.height.toNat < 2 ^ 31
  parsedCb : card.parsedCb = some (coinbaseShown js poolAddressScript t)

theorem encode_ne_nil {bs : Bytes} (h : 0 < bs.length) :
    Hex.encode bs ≠ [] := by
  rw [← List.length_pos_iff, length_encode]
  omega

theorem card_shows {H : HashFn} {cfg : Config} {js : BitcoinJs}
    (hjs : js.Reads) {t₀ t : BlockTemplate} (hcore₀ : FromCore t₀)
    (hcore : FromCore t) (hpayout : cfg.poolAddressScript.length < 2 ^ 32)
    {job : MiningJob} (hbuilt : BuiltFrom H cfg job t₀ t)
    {json : String → Json} (hjson : Indexed job.templateArgs json)
    (id : Text) :
    Shows js cfg.poolAddressScript t₀ t
      (templateCard js (parseTemplateJson json id)) := by
  obtain ⟨bytes, -, hhalves⟩ := Option.bind_eq_some_iff.mp hbuilt.coinbase
  have hfirst : job.coinbase1 = coinbase1 t :=
    (congrArg Prod.fst (Option.some.inj hhalves)).symm
  have hprev : (parseTemplateJson json id).prevBlockHash
      = Hex.encode job.prevBlockHash := by
    show b64hex (json "prev_block_hash") = _
    rw [hjson.prevBlockHash]
    exact b64hex_encode job.prevBlockHash
  have hcoinbase1 : (parseTemplateJson json id).coinbase1
      = Hex.encode (coinbase1 t) := by
    show b64hex (json "coinbase1") = _
    rw [hjson.coinbase1, ← hfirst]
    exact b64hex_encode job.coinbase1
  have hcoinbase2 : (parseTemplateJson json id).coinbase2
      = Hex.encode job.coinbase2 := by
    show b64hex (json "coinbase2") = _
    rw [hjson.coinbase2]
    exact b64hex_encode job.coinbase2
  have hbranches : (parseTemplateJson json id).merkleBranches
      = ((calculateMerkleBranches H t).map Hex.encode).map reverseHex := by
    show (b64hexArray (json "merkle_branches")).map reverseHex = _
    rw [hjson.merkleBranches]
    show (b64hexArray (.array (job.merkleBranches.map _))).map _ = _
    rw [hbuilt.merkleBranches, b64hexArray_encode branches_ne_nil]
  have hheight : (parseTemplateJson json id).height
      = (t₀.height.toNat : Int) := by
    show parseU64 (json "height") = _
    rw [hjson.height, ← hbuilt.height]
    exact parseU64_digits job.height.toNat
  have hparsed := parseCoinbaseHeight_coinbase1 t
  obtain ⟨hprevNe, hprevShown⟩ :=
    prevBlockHash_shown hcore₀ hbuilt.prevBlockHash
  obtain ⟨hfirstTx, hempty⟩ := firstTx_shown H hcore
  constructor
  case prevHashDisplay =>
      show (if (parseTemplateJson json id).prevBlockHash = [] then []
        else reverseHex (parseTemplateJson json id).prevBlockHash) = _
      rw [hprev, if_neg hprevNe, hprevShown]
  case firstTx =>
      show computeFirstTransaction _ = _
      rw [hbranches, hfirstTx]
  case isEmptyBlock =>
      show decide (computeFirstTransaction _ = _) = true ↔ _
      rw [decide_eq_true_eq, hbranches, hfirstTx, hempty]
  case coinbaseAscii =>
      show decodeCoinbaseAscii _ = []
      rw [hcoinbase1, decodeCoinbaseAscii_coinbase1]
  case bip34Height =>
      show parseCoinbaseHeight _ = _
      rw [hcoinbase1, hparsed]
  case heightsAgree =>
      show decide (parseCoinbaseHeight _ = some _) = true ↔ _
      rw [decide_eq_true_eq, hcoinbase1, hparsed, hheight]
      by_cases hsmall : t.height.toNat < 2 ^ 31
      · rw [if_pos hsmall, Option.some_inj, Int.natCast_inj,
          BitVec.toNat_inj]
        exact (and_iff_left hsmall).symm
      · rw [if_neg hsmall]
        exact iff_of_false (fun h => by cases h) fun h => hsmall h.2
  case parsedCb =>
      have hlen := length_coinbase1 t
      have hne₁ : Hex.encode (coinbase1 t) ≠ [] :=
        encode_ne_nil (by omega)
      have hne₂ : Hex.encode job.coinbase2 ≠ [] := by
        have hsecond := congrArg Prod.snd (Option.some.inj hhalves)
        dsimp only at hsecond
        rw [← hsecond]
        exact List.cons_ne_nil _ _
      show (if _ ∨ _ then none else parseCoinbase js
        (reconstructCoinbaseHex _ _ 8)) = _
      rw [hcoinbase1, hcoinbase2, if_neg (not_or.mpr ⟨hne₁, hne₂⟩),
        reconstruct_coinbase, ← hfirst]
      exact parseCoinbase_made hjs hcore hpayout hbuilt.coinbase

theorem fromCore_regtest (prev : Nat) (height : U64)
    {transactions : List TemplateTransaction}
    (htxs : ∀ tx ∈ transactions, tx = mempoolTx) :
    FromCore (regtestTemplate prev height transactions) := by
  have hvalue : 5_000_000_000 < 2 ^ 53 := by decide
  refine ⟨lower_encode _, fun tx htx => ?_, hvalue, fun _ hc => ?_⟩
  · have hlower : mempoolTx.txid = mempoolTx.txid.map Char.toLower := by
      decide +kernel
    rw [htxs tx htx]
    refine ⟨?_, by decide +kernel⟩
    rw [hlower]
    exact Hex.lower_map_toLower _
  · cases hc

/-- A library that reads the format, and is asked for no address. -/
def formatJs : BitcoinJs where
  fromHex := fun cbHex =>
    (Hex.decode cbHex).bind (Format.wireTx fullSize).parse
  toBech32 := fun _ _ => none
  fromOutputScript := fun _ => none

theorem formatJs_reads : formatJs.Reads := by
  intro w hvalid _ _
  show (Hex.decode (Hex.encode _)).bind _ = some w
  rw [Hex.decode_encode]
  exact parse_eq_some.mpr ⟨hvalid, rfl⟩

/-- The indexer's answer for the fields of a registration. -/
def templateJson (t : TemplateArgs) (field : String) : Json :=
  if field = "height" then .string (Nat.toDigits 10 t.height.toNat)
  else if field = "prev_block_hash" then
    .string (Base64.encode t.prevBlockHash)
  else if field = "coinbase1" then .string (Base64.encode t.coinbase1)
  else if field = "coinbase2" then .string (Base64.encode t.coinbase2)
  else if field = "merkle_branches" then
    .array (t.merkleBranches.map fun b => .string (Base64.encode b))
  else if field = "version" then .number (t.version.setWidth 64)
  else if field = "nbits" then .number (t.nbits.setWidth 64)
  else if field = "ntime" then .number (t.ntime.setWidth 64)
  else .other

theorem templateJson_indexed (t : TemplateArgs) :
    Indexed t (templateJson t) :=
  ⟨rfl, rfl, rfl, rfl, rfl, rfl, rfl, rfl⟩

end M1n3Protocol.Web.Explorer
