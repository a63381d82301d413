/-
Whether the server's difficulty stays at or above the pool's minimum.

# What keeps it there

`difficulty_sync_loop` takes both locks and raises the difficulty to a new
minimum, or scales it by the minimum's fall, which keeps it above. The
broadcast that follows raises every miner.

# What lowers it

`global_vardiff_loop` bounds what it writes by the configured difficulty
and by nothing else, and what it read may be older than the last sync.
A connection and an accepted share also write a difficulty they read
before. Where each of these values is at or above the minimum as it is
written, the floor holds.
-/
import M1n3Protocol.Stratum.Vardiff

namespace M1n3Protocol.Vardiff

open Checked

variable {initialDifficulty : U64} {s s' : State} {e : Event}

-- ============================================================== the floor

theorem le_atLeast (bound d : U64) : d ≤ atLeast bound d := by
  unfold atLeast
  split
  case isTrue h => exact BitVec.le_of_lt h
  case isFalse => exact BitVec.le_refl d

theorem bound_le_atLeast (bound d : U64) : bound ≤ atLeast bound d := by
  unfold atLeast
  split
  case isTrue => exact BitVec.le_refl bound
  case isFalse h => exact BitVec.not_lt.mp h

theorem le_raised (newFloor d : U64) : d ≤ raised newFloor d := by
  simp only [raised]
  split
  case isTrue h => exact BitVec.le_of_lt h
  case isFalse => exact BitVec.le_refl d

theorem le_safeDiff (d : U64) : d ≤ safeDiff d := by
  unfold safeDiff
  split
  case isTrue h => exact BitVec.le_of_lt h
  case isFalse => exact BitVec.le_refl d

theorem floor_le_raised (newFloor d : U64) : newFloor ≤ raised newFloor d := by
  simp only [raised]
  split
  case isTrue => exact le_safeDiff newFloor
  case isFalse h =>
      exact BitVec.le_trans (le_safeDiff newFloor) (BitVec.not_lt.mp h)

/-- A fall of the minimum scales the difficulty to no less than it. -/
theorem scaled_ge {globalDiff poolMin lastMin : U64}
    (hfall : poolMin < lastMin) (hfloor : lastMin ≤ globalDiff) :
    poolMin ≤ BitVec.ofNat 64
      (globalDiff.toNat * poolMin.toNat / lastMin.toNat) := by
  rw [BitVec.lt_def] at hfall
  rw [BitVec.le_def] at hfloor ⊢
  have hpos : 0 < lastMin.toNat := Nat.zero_lt_of_lt hfall
  have hle : globalDiff.toNat * poolMin.toNat / lastMin.toNat
      ≤ globalDiff.toNat := by
    apply Nat.div_le_of_le_mul
    rw [Nat.mul_comm]
    exact Nat.mul_le_mul_right _ (Nat.le_of_lt hfall)
  rw [BitVec.toNat_ofNat,
    Nat.mod_eq_of_lt (Nat.lt_of_le_of_lt hle globalDiff.isLt),
    Nat.le_div_iff_mul_le hpos, Nat.mul_comm]
  exact Nat.mul_le_mul_right _ hfloor

theorem poolMin_le_synced {globalDiff poolMin lastMin : U64}
    (hfloor : lastMin ≤ globalDiff) :
    poolMin ≤ syncedDifficulty initialDifficulty globalDiff poolMin
      lastMin := by
  unfold syncedDifficulty
  split
  case isTrue => exact BitVec.le_refl poolMin
  case isFalse hge =>
      split
      case isTrue hfall =>
          exact BitVec.le_trans (scaled_ge hfall hfloor) (le_atLeast _ _)
      case isFalse => exact BitVec.not_lt.mp hge

-- =========================================================== the invariant

/-- The sync loop has raised the difficulty and not the miners yet. -/
def State.raising (s : State) : Bool :=
  (s.pushes .sync).dueFloor.isSome

/-- What is written is at or above the minimum of the moment: what the
vardiff loop computed, or the bound it puts on it, and what a connection
and an accepted share have read. -/
def keepsFloor (initialDifficulty : U64) (s : State) : Event → Bool
  | .writeGlobal => s.lastPoolMinDifficulty ≤ initialDifficulty
      || s.tuning.computed.all fun d => s.lastPoolMinDifficulty ≤ d
  | .insert who =>
      (s.opening who).all fun d => s.lastPoolMinDifficulty ≤ d
  | .update who =>
      (s.updating who).all fun d => s.lastPoolMinDifficulty ≤ d
  | _ => true

/-- What passes `all` of a lookup. -/
theorem le_of_all {o : Option U64} {bound d : U64}
    (h : o.all (fun d => decide (bound ≤ d)) = true) (ho : o = some d) :
    bound ≤ d := by
  rw [ho] at h
  exact of_decide_eq_true h

structure Floored (s : State) : Prop where
  global : s.lastPoolMinDifficulty ≤ s.globalDifficulty
  due : ∀ newFloor, s.pushes .sync = .due newFloor →
    s.lastPoolMinDifficulty ≤ newFloor
  miners : s.raising = false →
    ∀ p ∈ s.miners, s.lastPoolMinDifficulty ≤ p.2.difficulty

theorem State.raising_of_pushes (h : s'.pushes .sync = s.pushes .sync) :
    s'.raising = s.raising := by
  unfold State.raising
  rw [h]

theorem Floored.quiet (hf : Floored s) (h : Quiet s s') : Floored s' where
  global := by
    rw [h.globalDifficulty, h.lastPoolMin]
    exact hf.global
  due := by
    rw [h.pushes, h.lastPoolMin]
    exact hf.due
  miners := by
    rw [State.raising_of_pushes (congrFun h.pushes .sync), h.lastPoolMin,
      h.miners]
    exact hf.miners

/-- Entries may change as long as none falls below the minimum. -/
theorem Floored.of_miners (hf : Floored s)
    (hglobal : s'.globalDifficulty = s.globalDifficulty)
    (hlast : s'.lastPoolMinDifficulty = s.lastPoolMinDifficulty)
    (hsync : (s'.pushes .sync).dueFloor = (s.pushes .sync).dueFloor)
    (hminers : ∀ p ∈ s'.miners, (∃ q ∈ s.miners, q.2.difficulty
        ≤ p.2.difficulty) ∨ s.lastPoolMinDifficulty ≤ p.2.difficulty) :
    Floored s' where
  global := by
    rw [hglobal, hlast]
    exact hf.global
  due newFloor hdue := by
    rw [hlast]
    apply hf.due newFloor
    rw [hdue] at hsync
    revert hsync
    cases s.pushes .sync with
    | due newFloor' =>
        intro h
        injection h with h
        rw [h]
    | idle | sending => simp [Push.dueFloor]
  miners hraising p hp := by
    rw [hlast]
    rcases hminers p hp with ⟨q, hq, hle⟩ | hle
    · refine BitVec.le_trans (hf.miners ?_ q hq) hle
      rw [← hraising, State.raising, State.raising, hsync]
    · exact hle

-- ============================================================ one step

theorem floored_init : Floored (.init initialDifficulty) where
  global := BitVec.le_refl _
  due _ h := by cases h
  miners _ _ hp := by cases hp

theorem Floored.poolState (hf : Floored s) {poolMin : U64}
    (h : s.poolState initialDifficulty poolMin = .ok s') : Floored s' := by
  rcases poolState_ok h with rfl | ⟨-, hlast, hglobal, -, hpushes⟩
  · exact hf
  · have hle : s'.lastPoolMinDifficulty ≤ s'.globalDifficulty := by
      rw [hlast, hglobal]
      exact poolMin_le_synced hf.global
    have hsync : s'.pushes .sync = .due s'.globalDifficulty := by
      rw [hpushes]
      simp
    refine ⟨hle, ?_, ?_⟩
    · intro newFloor hdue
      rw [hsync] at hdue
      injection hdue with hdue
      rw [← hdue]
      exact hle
    · intro hraising
      simp [State.raising, hsync, Push.dueFloor] at hraising

theorem Floored.writeGlobal (hf : Floored s)
    (hok : keepsFloor initialDifficulty s .writeGlobal = true)
    (h : s.writeGlobal initialDifficulty = .ok s') : Floored s' := by
  obtain ⟨newDiff, hnew, rfl⟩ := writeGlobal_ok h
  refine ⟨?_, hf.due, hf.miners⟩
  show s.lastPoolMinDifficulty ≤ newDiff
  obtain ⟨computed, hcomputed, rfl⟩ := Option.map_eq_some_iff.mp hnew
  rcases Bool.or_eq_true_iff.mp hok with hinit | hall
  · exact BitVec.le_trans (of_decide_eq_true hinit) (bound_le_atLeast _ _)
  · exact BitVec.le_trans (le_of_all hall hcomputed) (le_atLeast _ _)

/-- The broadcast of the sync loop brings every miner to the floor, any
other leaves none lower than it was. -/
theorem Floored.collect (hf : Floored s) {loop : Loop}
    (h : s.collect loop = .ok s') : Floored s' := by
  obtain ⟨newFloor, hdue, hglobal, hlast, hminers, hpushes⟩ := collect_ok h
  cases loop with
  | sync =>
      refine ⟨?_, ?_, ?_⟩
      · rw [hglobal, hlast]
        exact hf.global
      · intro newFloor' hdue'
        rw [hpushes] at hdue'
        simp at hdue'
      · intro _ p hp
        rw [hminers] at hp
        obtain ⟨q, -, rfl⟩ := List.mem_map.mp hp
        rw [hlast]
        exact BitVec.le_trans (hf.due newFloor hdue) (floor_le_raised _ _)
  | vardiff =>
      refine hf.of_miners hglobal hlast ?_ ?_
      · rw [hpushes]
        simp
      · intro p hp
        rw [hminers] at hp
        obtain ⟨q, hq, rfl⟩ := List.mem_map.mp hp
        exact .inl ⟨q, hq, le_raised _ _⟩

theorem Floored.tell (hf : Floored s) (who : SocketAddr) (n : Nat) :
    Floored (s.tell who n) := by
  refine hf.of_miners rfl rfl rfl ?_
  intro p hp
  obtain ⟨q, hq, -, ⟨-, hp⟩ | ⟨-, hp⟩⟩ := mem_modifyMiner hp
  · rw [hp]
    exact .inl ⟨q, hq, BitVec.le_refl _⟩
  · rw [hp]
    exact .inl ⟨q, hq, BitVec.le_refl _⟩

theorem Floored.sent (hf : Floored s) {loop : Loop} {who : SocketAddr}
    {n : Nat} {ok : Bool} (h : s.sent loop who n ok = .ok s') :
    Floored s' := by
  obtain ⟨newFloor, sendList, hsending, -, rfl⟩ := sent_ok h
  have htold : Floored (if ok then s.tell who n else s) := by
    cases ok with
    | true => exact hf.tell who n
    | false => exact hf
  have hsame : (if ok then s.tell who n else s).pushes = s.pushes := by
    cases ok <;> rfl
  refine htold.of_miners rfl rfl ?_ fun p hp => .inl ⟨p, hp, BitVec.le_refl _⟩
  rw [setPush_pushes, hsame]
  by_cases hloop : Loop.sync = loop
  · rw [if_pos hloop, hloop, hsending]
    rfl
  · rw [if_neg hloop]

theorem Floored.pushed (hf : Floored s) {loop : Loop}
    (h : s.pushed loop = .ok s') : Floored s' := by
  obtain ⟨newFloor, hsending, rfl⟩ := pushed_ok h
  refine hf.of_miners rfl rfl ?_ fun p hp => .inl ⟨p, hp, BitVec.le_refl _⟩
  rw [setPush_pushes]
  by_cases hloop : Loop.sync = loop
  · rw [if_pos hloop, hloop, hsending]
    rfl
  · rw [if_neg hloop]

theorem Floored.notified (hf : Floored s) {who : SocketAddr} {n : Nat}
    {ok : Bool} (h : s.notified who n ok = .ok s') : Floored s' := by
  refine Floored.quiet ?_ (notified_ok h)
  cases ok with
  | true => exact hf.tell who n
  | false => exact hf

theorem dropTo_dueFloor (who : SocketAddr) (p : Push) :
    (p.dropTo who).dueFloor = p.dueFloor := by
  cases p <;> rfl

theorem Floored.insert (hf : Floored s) {who : SocketAddr}
    (hok : keepsFloor initialDifficulty s (.insert who) = true)
    (h : s.insert who = .ok s') : Floored s' := by
  obtain ⟨initialDiff, hopening, hglobal, hlast, hminers, hpushes⟩ :=
    insert_ok h
  refine hf.of_miners hglobal hlast ?_ ?_
  · rw [hpushes, dropTo_dueFloor]
  · intro p hp
    rw [hminers] at hp
    rcases List.mem_cons.mp hp with rfl | hp
    · exact .inr (le_of_all hok hopening)
    · exact .inl ⟨p, List.mem_of_mem_filter hp, BitVec.le_refl _⟩

theorem Floored.update (hf : Floored s) {who : SocketAddr}
    (hok : keepsFloor initialDifficulty s (.update who) = true)
    (h : s.update who = .ok s') : Floored s' := by
  rcases update_ok h with hq | ⟨globalFloor, hupdating, hq⟩
  · exact hf.quiet hq
  · refine Floored.quiet ?_ hq
    refine hf.of_miners rfl rfl rfl ?_
    intro p hp
    obtain ⟨q, hq, -, ⟨-, hp⟩ | ⟨-, hp⟩⟩ := mem_modifyMiner hp
    · rw [hp]
      exact .inr (le_of_all hok hupdating)
    · rw [hp]
      exact .inl ⟨q, hq, BitVec.le_refl _⟩

theorem Floored.leave (hf : Floored s) {who : SocketAddr}
    (h : s.leave who = .ok s') : Floored s' := by
  refine Floored.quiet ?_ (leave_ok h)
  refine hf.of_miners rfl rfl rfl ?_
  exact fun p hp => .inl ⟨p, List.mem_of_mem_filter hp, BitVec.le_refl _⟩

theorem Floored.step (hf : Floored s)
    (hok : keepsFloor initialDifficulty s e = true)
    (h : step initialDifficulty s e = .ok s') : Floored s' := by
  cases e with
  | poolState => exact hf.poolState h
  | tick => exact hf.quiet (tick_quiet h)
  | readGlobal => exact hf.quiet (readGlobal_quiet h)
  | writeGlobal => exact hf.writeGlobal hok h
  | collect => exact hf.collect h
  | sent => exact hf.sent h
  | pushed => exact hf.pushed h
  | notify =>
      cases h
      exact hf.quiet ⟨rfl, rfl, rfl, rfl⟩
  | notified => exact hf.notified h
  | connect => exact hf.quiet (connect_quiet h)
  | insert => exact hf.insert hok h
  | submit => exact hf.quiet (submit_quiet h)
  | readFloor => exact hf.quiet (readFloor_quiet h)
  | update => exact hf.update hok h
  | subscribe => exact hf.quiet (subscribe_quiet h)
  | write =>
      rcases write_ok h with hq | ⟨newDiff, -, hq⟩
      · exact hf.quiet hq
      · exact (hf.tell _ _).quiet hq
  | leave => exact hf.leave h
  | fail => exact hf.quiet (fail_quiet h)

-- ============================================================ whole runs

theorem floored_of_reach
    (h : (machine initialDifficulty).ReachVia
      (fun s e => keepsFloor initialDifficulty s e = true) s) : Floored s :=
  h.invariant floored_init fun _ _ _ hf hok hstep => hf.step hok hstep

theorem miner_mem {who : SocketAddr} {m : Miner} (h : s.miner who = some m) :
    ∃ p ∈ s.miners, p.2 = m := by
  unfold State.miner at h
  obtain ⟨p, hp, hm⟩ := Option.map_eq_some_iff.mp h
  exact ⟨p, List.mem_of_find?_eq_some hp, hm⟩

/-- A raise of the minimum to 65536 with one miner connected, then a rate
that doubles the difficulty, then a drought. -/
def raisedAndHalved : List Event :=
  [.connect 0, .insert 0, .poolState 65536, .collect .sync,
   .sent .sync 0 65536 true, .pushed .sync,
   .tick 40 0, .readGlobal (some 131072), .writeGlobal, .collect .vardiff,
   .sent .vardiff 0 131072 true, .pushed .vardiff,
   .tick 0 121, .readGlobal none, .writeGlobal]

end M1n3Protocol.Vardiff
