/-
Whether a broadcast of a difficulty leaves every miner at it.

# What a broadcast does

It raises the entries below the floor and tells every miner its entry. A
miner above the floor keeps its own difficulty, so a floor that falls
reaches only miners that submit a share, and a miner held to more than it
can reach never does.

# What comes in between

While the messages are written, other steps may enter a miner, give it the
floor of its last share, or tell it a number built before. Where a
broadcast finds no miner above its floor, every message arrives, and what
is written meanwhile is the same difficulty, all miners end at it.
-/
import M1n3Protocol.Stratum.Vardiff

namespace M1n3Protocol.Vardiff

open Checked

variable {initialDifficulty : U64} {s s' : State} {e : Event} {loop : Loop}

-- ============================================================ the condition

/-- A broadcast begins with no miner above its floor, a floor of at least
one that a message states exactly, and no other one out; its writes
succeed; and until its end a miner is entered at, given or told the same
difficulty, or has the message of the broadcast still to come. -/
def agrees (s : State) : Event → Bool
  | .collect loop => (s.pushes loop).dueFloor.all fun d =>
      1 ≤ d && asF64 d == d.toNat
        && s.miners.all (fun p => p.2.difficulty ≤ d)
        && s.broadcasts.all fun b => b.1 == d
  | .sent _ _ _ ok => ok
  | .notified who n ok => !ok || s.broadcasts.all fun b =>
      n == b.1.toNat || b.2.contains (who, b.1.toNat)
  | .insert who => (s.opening who).all fun d =>
      s.broadcasts.all fun b => b.1 == d
  | .update who => (s.updating who).all fun d =>
      s.broadcasts.all fun b => b.1 == d
  | .write who => (s.writing who).all fun d => s.broadcasts.all fun b =>
      d == b.1 || b.2.contains (who, b.1.toNat)
  | _ => true

theorem mem_broadcasts {d : U64} {sendList : Sends}
    (h : s.pushes loop = .sending d sendList) :
    (d, sendList) ∈ s.broadcasts := by
  refine List.mem_filterMap.mpr ⟨loop, ?_, ?_⟩
  · cases loop <;> simp
  · rw [h]
    rfl

/-- What holds of all broadcasts, for a value looked up. -/
theorem all_broadcasts {o : Option U64} {d : U64}
    {P : U64 → U64 × Sends → Bool}
    (h : o.all (fun d => s.broadcasts.all (P d)) = true) (ho : o = some d)
    {d' : U64} {sendList : Sends} (hp : s.pushes loop = .sending d' sendList) :
    P d (d', sendList) = true := by
  rw [ho, Option.all_some] at h
  exact List.all_eq_true.mp h _ (mem_broadcasts hp)

-- =========================================================== one broadcast

/-- Every miner is held to `d`, and was told no other difficulty last. -/
def State.SettledAt (s : State) (d : U64) : Prop :=
  ∀ p ∈ s.miners,
    p.2.difficulty = d ∧ ∀ n, p.2.told = some n → n = d.toNat

/-- The miners are at `d`, and have been told so or will be. -/
structure Follows (miners : List (SocketAddr × Miner)) (d : U64)
    (sendList : Sends) : Prop where
  positive : 1 ≤ d
  exact : asF64 d = d.toNat
  sends : ∀ send ∈ sendList, send.2 = d.toNat
  enforced : ∀ p ∈ miners, p.2.difficulty = d
  told : ∀ p ∈ miners, (∀ n, p.2.told = some n → n = d.toNat)
    ∨ (p.1, d.toNat) ∈ sendList

namespace Follows

variable {d : U64} {sendList : Sends} {miners : List (SocketAddr × Miner)}

theorem settled (h : Follows s.miners d []) : s.SettledAt d := by
  intro p hp
  refine ⟨h.enforced p hp, ?_⟩
  rcases h.told p hp with htold | hmem
  · exact htold
  · cases hmem

/-- Fewer miners. -/
theorem subset {miners' : List (SocketAddr × Miner)}
    (h : Follows miners d sendList) (hsub : ∀ p ∈ miners', p ∈ miners) :
    Follows miners' d sendList where
  positive := h.positive
  exact := h.exact
  sends := h.sends
  enforced p hp := h.enforced p (hsub p hp)
  told p hp := h.told p (hsub p hp)

/-- An entry that changes is left at the difficulty, and told it or still
to be told. -/
theorem modify (h : Follows s.miners d sendList) {who : SocketAddr}
    {f : Miner → Miner}
    (hf : ∀ p ∈ s.miners, p.1 = who → (f p.2).difficulty = d
      ∧ ((∀ n, (f p.2).told = some n → n = d.toNat)
        ∨ (who, d.toNat) ∈ sendList)) :
    Follows (s.modifyMiner who f).miners d sendList where
  positive := h.positive
  exact := h.exact
  sends := h.sends
  enforced p hp := by
    obtain ⟨q, hq, -, ⟨hwho, hp⟩ | ⟨-, hp⟩⟩ := mem_modifyMiner hp
    · rw [hp]
      exact (hf q hq hwho).1
    · rw [hp]
      exact h.enforced q hq
  told p hp := by
    obtain ⟨q, hq, haddr, ⟨hwho, hp⟩ | ⟨-, hp⟩⟩ := mem_modifyMiner hp
    · rw [haddr, hwho, hp]
      exact (hf q hq hwho).2
    · rw [haddr, hp]
      exact h.told q hq

/-- A miner may be told the difficulty, or anything while its message is
still to come. -/
theorem tell (h : Follows s.miners d sendList) {who : SocketAddr} {n : Nat}
    (hn : ∀ p ∈ s.miners, p.1 = who →
      n = d.toNat ∨ (who, d.toNat) ∈ sendList) :
    Follows (s.tell who n).miners d sendList := by
  refine h.modify fun p hp hwho => ⟨h.enforced p hp, ?_⟩
  rcases hn p hp hwho with rfl | hmem
  · exact .inl fun n hn => (Option.some.inj hn).symm
  · exact .inr hmem

/-- The message of the broadcast arrives. -/
theorem sent (h : Follows s.miners d sendList) (who : SocketAddr) :
    Follows (s.tell who d.toNat).miners d
      (sendList.erase (who, d.toNat)) where
  positive := h.positive
  exact := h.exact
  sends send hsend := h.sends send (List.mem_of_mem_erase hsend)
  enforced := (h.tell fun _ _ _ => .inl rfl).enforced
  told p hp := by
    obtain ⟨q, hq, haddr, ⟨-, hp⟩ | ⟨hne, hp⟩⟩ := mem_modifyMiner hp
    · rw [hp]
      exact .inl fun n hn => (Option.some.inj hn).symm
    · rw [haddr, hp]
      rcases h.told q hq with htold | hmem
      · exact .inl htold
      · refine .inr ((List.mem_erase_of_ne ?_).mpr hmem)
        intro heq
        exact hne (congrArg Prod.fst heq)

theorem update (h : Follows s.miners d sendList) (who : SocketAddr) :
    Follows (s.modifyMiner who fun m => { m with difficulty := d }).miners d
      sendList :=
  h.modify fun p hp hwho => ⟨rfl, hwho ▸ h.told p hp⟩

/-- A miner enters at the difficulty. -/
theorem insert (h : Follows s.miners d sendList) (who : SocketAddr) :
    Follows ((who, { difficulty := d, told := none })
      :: (s.removeMiner who).miners) d (Sends.dropTo sendList who) where
  positive := h.positive
  exact := h.exact
  sends send hsend := h.sends send (List.mem_of_mem_filter hsend)
  enforced p hp := by
    rcases List.mem_cons.mp hp with rfl | hp
    · rfl
    · exact h.enforced p (List.mem_of_mem_filter hp)
  told p hp := by
    rcases List.mem_cons.mp hp with rfl | hp
    · exact .inl fun n hn => by cases hn
    · obtain ⟨hp, hne⟩ := List.mem_filter.mp hp
      rcases h.told p hp with htold | hmem
      · exact .inl htold
      · exact .inr (List.mem_filter.mpr ⟨hmem, hne⟩)

end Follows

theorem raised_eq {d m : U64} (hpos : 1 ≤ d) (hle : m ≤ d) :
    raised d m = d := by
  have hsafe : safeDiff d = d := if_neg (BitVec.not_lt.mpr hpos)
  simp only [raised, hsafe]
  split
  case isTrue => rfl
  case isFalse h => exact BitVec.le_antisymm hle (BitVec.not_lt.mp h)

-- ============================================================== the steps

/-- The miners follow every broadcast that is out. -/
def Following (s : State) : Prop :=
  ∀ loop d sendList, s.pushes loop = .sending d sendList →
    Follows s.miners d sendList

theorem following_init : Following (.init initialDifficulty) := by
  intro loop d sendList h
  cases h

theorem Following.quiet (hf : Following s) (h : Quiet s s') :
    Following s' := by
  intro loop d sendList hp
  rw [h.pushes] at hp
  rw [h.miners]
  exact hf loop d sendList hp

/-- Where the miners stay and no broadcast begins. -/
theorem Following.setPush (hf : Following s) {p : Push}
    (hp : p.broadcast = none) (hminers : s'.miners = s.miners)
    (hpushes : s'.pushes = (s.setPush loop p).pushes) : Following s' := by
  intro l d sendList h
  rw [hpushes, setPush_pushes] at h
  rw [hminers]
  by_cases hl : l = loop
  · rw [if_pos hl] at h
    rw [h] at hp
    cases hp
  · rw [if_neg hl] at h
    exact hf l d sendList h

theorem Following.poolState (hf : Following s) {poolMin : U64}
    (h : s.poolState initialDifficulty poolMin = .ok s') : Following s' := by
  rcases poolState_ok h with rfl | ⟨-, -, -, hminers, hpushes⟩
  · exact hf
  · exact hf.setPush rfl hminers hpushes

theorem Following.writeGlobal (hf : Following s)
    (h : s.writeGlobal initialDifficulty = .ok s') : Following s' := by
  obtain ⟨newDiff, -, rfl⟩ := writeGlobal_ok h
  exact hf.setPush rfl rfl rfl

theorem Following.pushed (hf : Following s)
    (h : s.pushed loop = .ok s') : Following s' := by
  obtain ⟨newFloor, -, rfl⟩ := pushed_ok h
  exact hf.setPush rfl rfl rfl

theorem Following.collect (hf : Following s)
    (hok : agrees s (.collect loop) = true)
    (h : s.collect loop = .ok s') : Following s' := by
  obtain ⟨d, hdue, -, -, hminers, hpushes⟩ := collect_ok h
  simp only [agrees, hdue, Push.dueFloor, Option.all_some,
    Bool.and_eq_true, List.all_eq_true, decide_eq_true_eq, beq_iff_eq] at hok
  obtain ⟨⟨⟨hpos, hexact⟩, hbelow⟩, hsame⟩ := hok
  have hat : ∀ p ∈ s'.miners, p.2.difficulty = d := by
    intro p hp
    rw [hminers] at hp
    obtain ⟨q, hq, rfl⟩ := List.mem_map.mp hp
    exact raised_eq hpos (hbelow q hq)
  intro l d' sendList hp
  rw [hpushes, setPush_pushes] at hp
  by_cases hl : l = loop
  · rw [if_pos hl] at hp
    injection hp with hd hsends
    subst hd hsends
    refine ⟨hpos, hexact, ?_, hat, ?_⟩
    · intro send hsend
      obtain ⟨p, hp, rfl⟩ := List.mem_map.mp hsend
      show asF64 p.2.difficulty = d.toNat
      rw [hat p hp, hexact]
    · intro p hp
      refine .inr (List.mem_map.mpr ⟨p, hp, ?_⟩)
      rw [hat p hp, hexact]
  · rw [if_neg hl] at hp
    have hd : d' = d := hsame _ (mem_broadcasts hp)
    have hfollows := hf l d' sendList hp
    refine ⟨hfollows.positive, hfollows.exact, hfollows.sends, ?_, ?_⟩
    · rw [hd]
      exact hat
    · intro p hp
      rw [hminers] at hp
      obtain ⟨q, hq, rfl⟩ := List.mem_map.mp hp
      exact hfollows.told q hq

theorem Following.tell (hf : Following s) {who : SocketAddr} {n : Nat}
    (hn : ∀ loop d sendList, s.pushes loop = .sending d sendList →
      ∀ p ∈ s.miners, p.1 = who → n = d.toNat ∨ (who, d.toNat) ∈ sendList) :
    Following (s.tell who n) := by
  intro loop d sendList hp
  exact (hf loop d sendList hp).tell (hn loop d sendList hp)

theorem Following.sent (hf : Following s) {who : SocketAddr} {n : Nat}
    {ok : Bool} (hok : agrees s (.sent loop who n ok) = true)
    (h : s.sent loop who n ok = .ok s') : Following s' := by
  obtain ⟨d, sendList, hsending, hmem, rfl⟩ := sent_ok h
  have hd : n = d.toNat := (hf loop d sendList hsending).sends _ hmem
  have htrue : ok = true := hok
  subst hd htrue
  intro l d' sendList' hp
  rw [setPush_pushes] at hp
  by_cases hl : l = loop
  · rw [if_pos hl] at hp
    injection hp with hd hsends
    subst hd hsends
    exact (hf loop d sendList hsending).sent who
  · rw [if_neg hl] at hp
    -- a miner told here is held to both floors, so they are the same
    refine (hf l d' sendList' hp).tell fun p hmem hwho => .inl ?_
    rw [← (hf loop d sendList hsending).enforced p hmem,
      (hf l d' sendList' hp).enforced p hmem]

theorem Following.notified (hf : Following s) {who : SocketAddr} {n : Nat}
    {ok : Bool} (hok : agrees s (.notified who n ok) = true)
    (h : s.notified who n ok = .ok s') : Following s' := by
  refine Following.quiet ?_ (notified_ok h)
  cases ok with
  | false => exact hf
  | true =>
      refine hf.tell fun loop d sendList hp p _ _ => ?_
      have hb := List.all_eq_true.mp hok _ (mem_broadcasts hp)
      simpa using hb

theorem Following.insert (hf : Following s) {who : SocketAddr}
    (hok : agrees s (.insert who) = true)
    (h : s.insert who = .ok s') : Following s' := by
  obtain ⟨initialDiff, hopening, -, -, hminers, hpushes⟩ := insert_ok h
  intro loop d sendList' hp
  rw [hpushes] at hp
  cases hpush : s.pushes loop with
  | idle | due =>
      rw [hpush] at hp
      cases hp
  | sending newFloor sendList =>
      rw [hpush] at hp
      injection hp with hd hsends
      subst hd hsends
      have hsame : newFloor = initialDiff :=
        eq_of_beq (all_broadcasts hok hopening hpush)
      rw [hminers, ← hsame]
      exact (hf loop newFloor sendList hpush).insert who

theorem Following.update (hf : Following s) {who : SocketAddr}
    (hok : agrees s (.update who) = true)
    (h : s.update who = .ok s') : Following s' := by
  rcases update_ok h with hq | ⟨globalFloor, hupdating, hq⟩
  · exact hf.quiet hq
  · refine Following.quiet ?_ hq
    intro loop d sendList hp
    have hsame : d = globalFloor :=
      eq_of_beq (all_broadcasts hok hupdating hp)
    rw [← hsame]
    exact (hf loop d sendList hp).update who

theorem Following.write (hf : Following s) {who : SocketAddr}
    (hok : agrees s (.write who) = true)
    (h : s.write who = .ok s') : Following s' := by
  rcases write_ok h with hq | ⟨newDiff, hwriting, hq⟩
  · exact hf.quiet hq
  · refine Following.quiet (hf.tell fun loop d sendList hp p _ _ => ?_) hq
    have hb := all_broadcasts hok hwriting hp
    rcases Bool.or_eq_true_iff.mp hb with hsame | hmem
    · have hfollows := hf loop d sendList hp
      rw [eq_of_beq hsame, safeDiff,
        if_neg (BitVec.not_lt.mpr hfollows.positive), hfollows.exact]
      exact .inl rfl
    · exact .inr (List.contains_iff_mem.mp hmem)

theorem Following.leave (hf : Following s) {who : SocketAddr}
    (h : s.leave who = .ok s') : Following s' := by
  refine Following.quiet ?_ (leave_ok h)
  intro loop d sendList hp
  exact (hf loop d sendList hp).subset fun p hp => List.mem_of_mem_filter hp

theorem Following.step (hf : Following s) (hok : agrees s e = true)
    (h : step initialDifficulty s e = .ok s') : Following s' := by
  cases e with
  | poolState => exact hf.poolState h
  | tick => exact hf.quiet (tick_quiet h)
  | readGlobal => exact hf.quiet (readGlobal_quiet h)
  | writeGlobal => exact hf.writeGlobal h
  | collect => exact hf.collect hok h
  | sent => exact hf.sent hok h
  | pushed => exact hf.pushed h
  | notify =>
      cases h
      exact hf.quiet ⟨rfl, rfl, rfl, rfl⟩
  | notified => exact hf.notified hok h
  | connect => exact hf.quiet (connect_quiet h)
  | insert => exact hf.insert hok h
  | submit => exact hf.quiet (submit_quiet h)
  | readFloor => exact hf.quiet (readFloor_quiet h)
  | update => exact hf.update hok h
  | subscribe => exact hf.quiet (subscribe_quiet h)
  | write => exact hf.write hok h
  | leave => exact hf.leave h
  | fail => exact hf.quiet (fail_quiet h)

-- ============================================================ whole runs

/-- A broadcast ends with every miner at its difficulty. -/
theorem push_settles
    (h : (machine initialDifficulty).ReachVia
      (fun s e => agrees s e = true) s)
    (hstep : (machine initialDifficulty).step s (.pushed loop) = .ok s') :
    ∃ d, s.pushes loop = .sending d [] ∧ s'.SettledAt d := by
  have hf : Following s :=
    h.invariant following_init fun _ _ _ hf hok hstep => hf.step hok hstep
  obtain ⟨d, hsending, rfl⟩ := pushed_ok hstep
  have hfollows : Follows (s.setPush loop .idle).miners d [] :=
    hf loop d [] hsending
  exact ⟨d, hsending, hfollows.settled⟩

/-- The minimum rises to 65536 with one miner connected and falls back to
4096, and the difficulty with it. -/
def raisedAndLowered : List Event :=
  [.connect 0, .insert 0, .poolState 65536, .collect .sync,
   .sent .sync 0 65536 true, .pushed .sync, .poolState 4096]

/-- A share before the broadcast brings the miner down. -/
theorem push_settles_raisedAndLowered :
    ∃ s s', s.pushes .sync = .sending 4096 []
      ∧ (machine 4096).step s (.pushed .sync) = .ok s'
      ∧ s'.SettledAt 4096 := by
  have hrun : (machine 4096).endsFrom agrees
      (fun s => s.pushes .sync = .sending 4096 [])
      (raisedAndLowered ++ [.submit 0 70000, .readFloor 0, .update 0,
        .write 0, .collect .sync, .sent .sync 0 4096 true])
      (machine 4096).init = true := by
    decide +kernel
  obtain ⟨s, hs, hcheck⟩ :=
    Machine.reachVia_of_endsFrom (fun _ _ h => h) .init hrun
  have hsending := of_decide_eq_true hcheck
  have hstep : (machine 4096).step s (.pushed .sync)
      = .ok (s.setPush .sync .idle) := by
    show s.pushed .sync = _
    rw [State.pushed, hsending]
  obtain ⟨d, hd, hsettled⟩ := push_settles hs hstep
  rw [hsending] at hd
  injection hd with hd
  rw [← hd] at hsettled
  exact ⟨s, _, hsending, hstep, hsettled⟩

/-- Without one, it stays held to the old difficulty. -/
theorem lowered_push_leaves_miner :
    ∃ s s', (machine 4096).Reach s ∧ s.pushes .sync = .sending 4096 []
      ∧ (machine 4096).step s (.pushed .sync) = .ok s'
      ∧ s'.miners = [(0, { difficulty := 65536, told := some 65536 })]
      ∧ ¬ s'.SettledAt 4096 := by
  have hrun : (machine 4096).endsIn
      (raisedAndLowered ++ [.collect .sync, .sent .sync 0 65536 true])
      (fun s => s.pushes .sync = .sending 4096 []
        ∧ s.miners = [(0, { difficulty := 65536, told := some 65536 })])
      = true := by
    decide +kernel
  obtain ⟨s, hs, hcheck⟩ := Machine.reach_of_endsIn hrun
  obtain ⟨hsending, hminers⟩ := of_decide_eq_true hcheck
  have hstep : (machine 4096).step s (.pushed .sync)
      = .ok (s.setPush .sync .idle) := by
    show s.pushed .sync = _
    rw [State.pushed, hsending]
  refine ⟨s, _, hs, hsending, hstep, hminers, fun hsettled => ?_⟩
  have hmem : (0, { difficulty := 65536, told := some 65536 })
      ∈ (s.setPush .sync .idle).miners := by
    rw [setPush_miners, hminers]
    exact List.mem_cons_self
  have hat := (hsettled _ hmem).1
  revert hat
  decide

end M1n3Protocol.Vardiff
