/-
The web app and the stratum server build the same template.

# Two encoders

The web app collects numbers and the server bytes. Each list of numbers
is the spread of the bytes the server writes in its place: the height is
cut down to its bytes by `>>>`, which reads 32 bits without a sign, and a
length by `>>`, whose sign stays above the byte taken.

# Two trees

The web app drops the first node, pairs up the others and starts again.
That is the path of the first leaf, one sibling a level.
-/
import M1n3Protocol.Proofs.CoinbaseRoundTrip
import M1n3Protocol.Proofs.MerkleBranches
import M1n3Protocol.Web.BitcoinTemplate

namespace M1n3Protocol.Web

open Js BitcoinTx

-- ============================================================== the numbers

theorem spread_leBytes (len n : Nat) :
    spread (leBytes len n)
      = (List.range len).map fun i => ((n / 2 ^ (i * 8) % 256 : Nat) : Int) := by
  induction len generalizing n with
  | zero => rfl
  | succ len ih =>
      have hfirst : ((BitVec.ofNat 8 n).toNat : Int)
          = ((n / 2 ^ (0 * 8) % 256 : Nat) : Int) := by
        rw [BitVec.toNat_ofNat, Nat.zero_mul, Nat.pow_zero, Nat.div_one]
      have hshift : ∀ i, n / 256 / 2 ^ (i * 8) = n / 2 ^ ((i + 1) * 8) := by
        intro i
        rw [Nat.div_div_eq_div_mul, show (256 : Nat) = 2 ^ 8 by rfl,
          ← Nat.pow_add, show 8 + i * 8 = (i + 1) * 8 by omega]
      show ((BitVec.ofNat 8 n).toNat : Int) :: spread (leBytes len (n / 256))
        = _
      rw [ih, List.range_succ_eq_map, List.map_cons, List.map_map, hfirst]
      simp only [Function.comp_def, hshift, Nat.succ_eq_add_one]

/-- The value of an output. -/
theorem bigBytes_eq (n : Nat) :
    ((List.range 8).map fun i => bigByte n (i * 8)) = spread (leBytes 8 n) := by
  rw [spread_leBytes]
  simp only [bigByte_natCast]

/-- The length of a script. -/
theorem encodeVarInt_eq (buf : List Int) {n : Nat} (h : n < 2 ^ 32) :
    encodeVarInt buf n = buf ++ spread (encodeScriptLen n) := by
  have hlow := bitAnd_byte h
  have hshift : ∀ {k}, k ≤ 24 →
      bitAnd (shiftRight n k) 0xff = (n / 2 ^ k % 256 : Nat) :=
    shiftRight_byte h
  unfold encodeVarInt encodeScriptLen
  by_cases hone : n < 0xfd
  · rw [if_pos (by omega), if_pos hone, spread_leBytes]
    congr 1
    show [(n : Int)] = [((n / 2 ^ (0 * 8) % 256 : Nat) : Int)]
    rw [Nat.zero_mul, Nat.pow_zero, Nat.div_one, Nat.mod_eq_of_lt (by omega)]
  · rw [if_neg (by omega), if_neg hone]
    by_cases htwo : n ≤ 0xffff
    · rw [if_pos (by omega), if_pos htwo]
      congr 1
      show _ = (0xfd : Int) :: spread (leBytes 2 n)
      rw [spread_leBytes, hlow, hshift (by decide)]
      simp [List.range_succ]
    · rw [if_neg (by omega), if_neg htwo]
      congr 1
      show _ = (0xfe : Int) :: spread (leBytes 4 n)
      rw [spread_leBytes, hlow, hshift (by decide), hshift (by decide),
        hshift (by decide)]
      simp [List.range_succ]

-- =============================================================== the height

theorem heightLoop_pos {n : Nat} (hpos : 0 < n) (h : n < 2 ^ 32) :
    heightLoop n
      = ((n % 256 : Nat) : Int) :: heightLoop ((n / 256 : Nat) : Int) := by
  rw [heightLoop, if_pos (by omega), bitAnd_byte h, shiftRightZero_natCast h,
    show (2 : Nat) ^ 8 = 256 by rfl]

theorem heightLoop_zero : heightLoop 0 = [] := by
  rw [heightLoop, if_neg (Int.lt_irrefl 0)]

theorem spread_leBytes_succ (m n : Nat) :
    spread (leBytes (m + 1) n)
      = ((n % 256 : Nat) : Int) :: spread (leBytes m (n / 256)) := by
  show ((BitVec.ofNat 8 n).toNat : Int) :: _ = _
  rw [BitVec.toNat_ofNat]
  rfl

/-- The loop ends behind the highest byte. -/
theorem heightLoop_eq {m n : Nat} (h : n < 2 ^ 32) (hlt : n < 256 ^ (m + 1))
    (hle : 256 ^ m ≤ n) : heightLoop n = spread (leBytes (m + 1) n) := by
  have hpos : 0 < n := Nat.lt_of_lt_of_le (Nat.pow_pos (by decide)) hle
  rw [heightLoop_pos hpos h, spread_leBytes_succ]
  congr 1
  cases m with
  | zero =>
      rw [Nat.div_eq_of_lt (show n < 256 from hlt)]
      exact heightLoop_zero
  | succ m =>
      apply heightLoop_eq (by omega)
      · rw [Nat.div_lt_iff_lt_mul (by decide), ← Nat.pow_succ]
        exact hlt
      · rw [Nat.le_div_iff_mul_le (by decide), ← Nat.pow_succ]
        exact hle

/-- The sign's zero. -/
theorem signPad_eq {bytes : Bytes} (h : bytes ≠ []) :
    (if bitAnd ((spread bytes).getLastD 0) 0x80 ≠ 0
      then spread bytes ++ [0] else spread bytes) = spread (padSign bytes) := by
  have hbyte : ∀ b : BitVec 8, bitAnd b.toNat 0x80 ≠ 0 ↔ b &&& 0x80 ≠ 0 := by
    decide +kernel
  obtain ⟨front, last, rfl⟩ : ∃ front last, bytes = front ++ [last] :=
    ⟨_, _, (List.dropLast_append_getLast h).symm⟩
  have hlast : (spread (front ++ [last])).getLastD 0 = (last.toNat : Int) := by
    simp [spread]
  unfold padSign
  rw [hlast, List.getLast?_append]
  simp only [hbyte, Option.any_some, List.getLast?_singleton,
    Option.some_or, decide_eq_true_eq]
  split
  case isTrue => simp [spread]
  case isFalse => rfl

/-- The bytes of a height, in the browser and in the server. -/
theorem heightBytes_spread {height : U64} (h : height.toNat < 2 ^ 32) :
    heightBytes height.toNat = spread (M1n3Protocol.heightBytes height) := by
  obtain ⟨m, hm, hlen, hlt, hle⟩ := heightLen_spec 7 (by decide)
    (show height.toNat < 256 ^ 8 from height.isLt)
  have hserver : M1n3Protocol.heightBytes height
      = padSign (leBytes (m + 1) height.toNat) := by
    rw [← take_leBytes height.toNat (show m + 1 ≤ 8 by omega), ← hlen]
    rfl
  have hloop : (if (heightLoop height.toNat).length = 0 then [0]
      else heightLoop height.toNat) = spread (leBytes (m + 1) height.toNat) := by
    rcases Nat.eq_zero_or_pos height.toNat with hz | hpos
    · have hm0 : m = 0 := by
        rcases hle with hm0 | hle
        · exact hm0
        · rw [hz] at hle
          exact absurd hle (Nat.not_le.mpr (Nat.pow_pos (by decide)))
      rw [hz, hm0]
      show (if (heightLoop 0).length = 0 then [0] else heightLoop 0) = _
      rw [heightLoop_zero]
      rfl
    · have hlow : 256 ^ m ≤ height.toNat := by
        rcases hle with rfl | hle
        · exact hpos
        · exact hle
      rw [heightLoop_eq h hlt hlow, if_neg (by simp [spread, leBytes])]
  unfold heightBytes
  dsimp only
  rw [hloop, hserver]
  exact signPad_eq (by simp [leBytes])

-- ============================================================= the coinbase

theorem uint8Array_append (xs ys : List Int) :
    uint8Array (xs ++ ys) = uint8Array xs ++ uint8Array ys :=
  List.map_append

/-- Valid digits are read as they are. -/
theorem hexToBytes_eq {text : Text} {bytes : Bytes}
    (h : Hex.decode text = some bytes) : hexToBytes text = bytes := by
  induction text using hexToBytes.induct generalizing bytes with
  | case1 c d rest ih =>
      obtain ⟨hi, hhi, h⟩ := Option.bind_eq_some_iff.mp h
      obtain ⟨lo, hlo, h⟩ := Option.bind_eq_some_iff.mp h
      obtain ⟨bs, hbs, h⟩ := Option.bind_eq_some_iff.mp h
      cases h
      rw [hexToBytes, parseInt16_pair hhi hlo, ih hbs, Option.elim_some,
        uint8_natCast]
  | case2 text hshort =>
      match text, hshort, h with
      | [], _, h =>
          cases h
          rfl
      | [c], _, h => cases h
      | c :: d :: rest, hshort, _ => exact absurd rfl (hshort c d rest)

variable {template : BlockTemplate} {script : Bytes}

theorem cb1_eq (hheight : template.height.toNat < 2 ^ 32) (value : Int)
    (witness : Option Text) :
    (buildCoinbase template.height.toNat value script witness).cb1
      = coinbase1 template := by
  have hlen : ∀ n : Nat, uint8Array [1 + (n : Int) + 12, n]
      = [BitVec.ofNat 8 (1 + n + 12), BitVec.ofNat 8 n] := by
    intro n
    show [uint8 (1 + (n : Int) + 12), uint8 n] = _
    rw [← uint8_natCast, ← uint8_natCast]
    norm_cast
  have hlength : (spread (M1n3Protocol.heightBytes template.height)).length
      = (M1n3Protocol.heightBytes template.height).length :=
    List.length_map _
  unfold buildCoinbase
  dsimp only
  rw [heightBytes_spread hheight, hlength]
  simp only [uint8Array_append, hlen, uint8Array_spread]
  rfl

/-- The texts a commitment may be given as: the digits of fewer than 2^32
bytes. -/
def ValidCommitment (text : Text) : Prop :=
  ∃ bytes, Hex.decode text = some bytes ∧ bytes.length < 2 ^ 32

/-- The commitment output, or nothing. -/
theorem commitment_eq
    (hcommitment : ∀ text ∈ template.defaultWitnessCommitment,
      ValidCommitment text) (buf : List Int) :
    ∃ bytes, commitmentOutput template = some bytes
      ∧ (if template.defaultWitnessCommitment.any
            (fun s => decide (0 < s.length)) then
          encodeVarInt (buf ++ List.replicate 8 0)
              (hexToBytes (template.defaultWitnessCommitment.getD [])).length
            ++ spread (hexToBytes
              (template.defaultWitnessCommitment.getD []))
        else buf) = buf ++ spread bytes := by
  unfold commitmentOutput
  cases hfield : template.defaultWitnessCommitment with
  | none => exact ⟨[], rfl, (List.append_nil buf).symm⟩
  | some text =>
      rw [hfield] at hcommitment
      obtain ⟨bytes, hdecode, hlt⟩ := hcommitment text rfl
      cases text with
      | nil => exact ⟨[], rfl, (List.append_nil buf).symm⟩
      | cons c cs =>
          refine ⟨leBytes 8 0 ++ encodeScriptLen bytes.length ++ bytes, ?_, ?_⟩
          · dsimp only
            rw [hdecode]
            rfl
          · have hzero : (List.replicate 8 0 : List Int)
                = spread (leBytes 8 0) := by decide
            dsimp only [Option.getD_some]
            rw [Option.any_some, if_pos (by simp), hexToBytes_eq hdecode,
              encodeVarInt_eq _ hlt, hzero]
            simp only [spread, List.map_append, List.append_assoc]

/-- The flag both count the outputs by. -/
theorem hasWitness_eq : template.defaultWitnessCommitment.any
    (fun s => decide (0 < s.length)) = template.hasWitnessCommitment := by
  unfold BlockTemplate.hasWitnessCommitment
  cases template.defaultWitnessCommitment with
  | none => rfl
  | some text => cases text <;> rfl

theorem createCoinbase_eq (hheight : template.height.toNat < 2 ^ 32)
    (hscript : script ≠ []) (hlen : script.length < 2 ^ 32)
    (hcommitment : ∀ text ∈ template.defaultWitnessCommitment,
      ValidCommitment text) :
    createCoinbase template script
      = let built := buildCoinbase template.height.toNat
          template.coinbasevalue.toNat script template.defaultWitnessCommitment
        some (built.cb1, built.cb2) := by
  obtain ⟨bytes, hbytes, hbuf⟩ := commitment_eq hcommitment
    (encodeVarInt ([0xff, 0xff, 0xff, 0xff]
      ++ [if template.defaultWitnessCommitment.any
        (fun s => decide (0 < s.length)) then 0x02 else 0x01]
      ++ (List.range 8).map fun i =>
        bigByte template.coinbasevalue.toNat (i * 8)) script.length
      ++ spread script)
  have hpayout : payoutScript script = script := by
    rw [payoutScript, List.isEmpty_eq_false_iff.mpr hscript]
    rfl
  have hcount : ∀ b : Bool, uint8Array [if b then 0x02 else 0x01]
      = [if b then 2 else 1] := by decide
  have hcb2 : (buildCoinbase template.height.toNat
      template.coinbasevalue.toNat script
      template.defaultWitnessCommitment).cb2
      = List.replicate 4 0xff ++ [if template.hasWitnessCommitment then 2
          else 1]
        ++ leBytes 8 template.coinbasevalue.toNat
        ++ encodeScriptLen script.length ++ script ++ bytes
        ++ List.replicate 4 0 := by
    unfold buildCoinbase
    dsimp only
    rw [hbuf, encodeVarInt_eq _ hlen, bigBytes_eq, hasWitness_eq]
    simp only [uint8Array_append, uint8Array_spread, hcount]
    rfl
  dsimp only
  rw [cb1_eq hheight, hcb2, createCoinbase, hbytes]
  show some (_, _) = some (_, _)
  rw [hpayout]

-- ============================================================= the branches

section Branches

variable (H : HashFn)

theorem combine_eq {a b : Bytes} (ha : a.length = 32) (hb : b.length = 32) :
    combine H a b = some (hashPair H a b) := by
  have hfirst : setAt (List.replicate 64 0) a 0
      = some (a ++ List.replicate 32 0) := by
    unfold setAt
    rw [if_pos (by rw [ha]; decide), ha]
    rfl
  have hsecond : setAt (a ++ List.replicate 32 0) b 32 = some (a ++ b) := by
    unfold setAt
    rw [if_pos (by
      rw [List.length_append, List.length_replicate, ha, hb]),
      List.take_left' ha, List.drop_of_length_le (by
        rw [List.length_append, List.length_replicate, ha, hb]),
      List.append_nil]
  unfold combine
  rw [hfirst]
  show (setAt (a ++ List.replicate 32 0) b 32).bind _ = _
  rw [hsecond]
  rfl

theorem nextLevel_eq {hashes : List Bytes} (h : ∀ b ∈ hashes, b.length = 32) :
    nextLevel H hashes = some (Merkle.level (hashPair H) hashes) := by
  induction hashes using Merkle.level.induct with
  | case1 => rfl
  | case2 a =>
      have ha := h a List.mem_cons_self
      rw [nextLevel, combine_eq H ha ha]
      rfl
  | case3 a b rest ih =>
      have ha := h a List.mem_cons_self
      have hb := h b (List.mem_cons_of_mem _ List.mem_cons_self)
      rw [nextLevel, combine_eq H ha hb, ih fun c hc =>
        h c (List.mem_cons_of_mem _ (List.mem_cons_of_mem _ hc))]
      rfl

theorem level_all {hashes : List Bytes} :
    ∀ b ∈ Merkle.level (hashPair H) hashes, b.length = 32 := by
  induction hashes using Merkle.level.induct with
  | case1 =>
      intro b hb
      cases hb
  | case2 a =>
      intro b hb
      rw [List.mem_singleton.mp hb]
      exact length_sha256d H _
  | case3 a c rest ih =>
      intro b hb
      rcases List.mem_cons.mp hb with rfl | hb
      · exact length_sha256d H _
      · exact ih b hb

/-- The loop is the path of a leaf before its nodes. -/
theorem branchLoop_eq {n : Nat} {hashes : List Bytes}
    (hn : hashes.length ≤ n) (h : ∀ b ∈ hashes, b.length = 32) :
    branchLoop H hashes = some (Merkle.path (hashPair H) n hashes) := by
  induction n generalizing hashes with
  | zero =>
      rw [List.eq_nil_of_length_eq_zero (Nat.le_zero.mp hn), branchLoop]
      rfl
  | succ n ih =>
      cases hashes with
      | nil =>
          rw [branchLoop]
          rfl
      | cons first rest =>
          have hrest : ∀ b ∈ rest, b.length = 32 := fun b hb =>
            h b (List.mem_cons_of_mem _ hb)
          have hlen : (Merkle.level (hashPair H) rest).length ≤ n :=
            Nat.le_trans (Merkle.length_level_le _ rest)
              (Nat.le_of_succ_le_succ hn)
          have hnext := nextLevel_eq H hrest
          rw [branchLoop, Merkle.path]
          by_cases hempty : rest = []
          · rw [if_pos hempty, hempty]
            cases n <;> rfl
          · rw [if_neg hempty]
            split
            case h_1 heq =>
                rw [hnext] at heq
                cases heq
            case h_2 next heq =>
                rw [hnext] at heq
                cases heq
                rw [ih hlen (level_all H)]
                rfl

omit H in
/-- The ids are read as the server reads them, and are of 32 bytes. -/
theorem txids_eq {transactions : List TemplateTransaction}
    {txids : List Bytes} (h : Lists transactions txids) :
    (transactions.map TemplateTransaction.txid).map
        (fun txid => (hexToBytes txid).reverse) = txids
      ∧ ∀ b ∈ txids, b.length = 32 := by
  unfold Lists at h
  induction h with
  | nil =>
      refine ⟨rfl, ?_⟩
      intro b hb
      cases hb
  | @cons tx txid _ txids hid _ ih =>
      refine ⟨?_, ?_⟩
      · rw [List.map_cons, List.map_cons, hexToBytes_eq hid.1,
          List.reverse_reverse, ih.1]
      · intro b hb
        rcases List.mem_cons.mp hb with rfl | hb
        · exact hid.2
        · exact ih.2 b hb

theorem computeMerkleBranches_eq {template : BlockTemplate}
    {txids : List Bytes} (h : Lists template.transactions txids) :
    computeMerkleBranches H
        (template.transactions.map TemplateTransaction.txid)
      = some (calculateMerkleBranches H template) := by
  obtain ⟨hread, hall⟩ := txids_eq h
  unfold computeMerkleBranches
  rw [hread, branchLoop_eq H (Nat.le_refl _) hall, calculateMerkleBranches,
    h.txids_eq, Merkle.branches]

end Branches

/-- The web app builds the coinbase halves and the branches the server
does. -/
theorem same_template :
    (∀ (template : BlockTemplate) (script : Bytes),
      template.height.toNat < 2 ^ 32 → script ≠ [] → script.length < 2 ^ 32 →
      (∀ text ∈ template.defaultWitnessCommitment, ValidCommitment text) →
      ∃ built, buildCoinbase template.height.toNat
          template.coinbasevalue.toNat script template.defaultWitnessCommitment
          = built
        ∧ createCoinbase template script = some (built.cb1, built.cb2))
    ∧ ∀ (H : HashFn) (template : BlockTemplate) (txids : List Bytes),
      Lists template.transactions txids →
      computeMerkleBranches H
          (template.transactions.map TemplateTransaction.txid)
        = some (calculateMerkleBranches H template) := by
  constructor
  · intro template script hheight hscript hlen hcommitment
    exact ⟨_, rfl, createCoinbase_eq hheight hscript hlen hcommitment⟩
  · intro H template txids h
    exact computeMerkleBranches_eq H h

/-- A height of three bytes with a commitment, and two transactions. -/
theorem same_template_halving :
    createCoinbase halvingTemplate [0x51]
        = some ((buildCoinbase 840000 312500000 [0x51]
            (some "6a24aa21a9ed".toList)).cb1,
          (buildCoinbase 840000 312500000 [0x51]
            (some "6a24aa21a9ed".toList)).cb2)
      ∧ computeMerkleBranches sha256
          (twoTransactions.transactions.map TemplateTransaction.txid)
        = some (calculateMerkleBranches sha256 twoTransactions) := by
  have hvalid : ∀ text ∈ halvingTemplate.defaultWitnessCommitment,
      ValidCommitment text := by
    intro text htext
    cases htext
    exact ⟨[0x6a, 0x24, 0xaa, 0x21, 0xa9, 0xed], by decide +kernel,
      by decide⟩
  have hlists : Lists twoTransactions.transactions
      [List.replicate 32 0x11, List.replicate 32 0xaa] :=
    .cons ⟨by decide +kernel, rfl⟩ (.cons ⟨by decide +kernel, rfl⟩ .nil)
  obtain ⟨built, rfl, hcreate⟩ := same_template.1 halvingTemplate [0x51]
    (by decide) (by decide) (by decide) hvalid
  exact ⟨hcreate, same_template.2 sha256 twoTransactions _ hlists⟩

end M1n3Protocol.Web
