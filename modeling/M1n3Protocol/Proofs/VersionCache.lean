/-
Stale references in the client's version cache: how often a transaction
can be turned down for one, and when none is stale at all.

# Ids in an error

An id written with all its digits, set apart from other digits, is found
(`mem_parseObjectIds`). The scan goes on behind every run of digits, so a
run before the id must end before it begins.

# Rejections are bounded

What is fetched from the node is current, so on a chain at rest only what
was cached before is stale. Each rejection drops one such entry, or all
of them, and the gas coin: `staleRefs` drops at every step of the trace.

# Who can be stale

Where the answers list what they changed and others leave the cached
objects alone, what is cached stays current (`Coherent`), the gas coins
apart. An abort moves the gas coin, and the cache is not told.
-/
import M1n3Protocol.Client.VersionCache
import Mathlib.Data.Finset.Card
import Mathlib.Data.List.TakeWhile

namespace M1n3Protocol.Client

-- ================================================= statement vocabulary

/-- `0x` and the 64 digits. -/
def written (id : ObjectID) : Text :=
  '0' :: 'x' :: Hex.padded 64 id.toNat

/-- The id stands in the text, no digit or `x` before it and no digit
behind it. -/
def Mentions (msg : Text) (id : ObjectID) : Prop :=
  ∃ before after, msg = before ++ (written id ++ after)
    ∧ (∀ pre c, before = pre ++ [c] → c ≠ 'x' ∧ isHexDigit c = false)
    ∧ ∀ c rest, after = c :: rest → isHexDigit c = false

/-- The words of an error that turns down a transaction of these
references: one of the two phrases, and a stale reference's id or none
at all. -/
structure SaysStale (objects : Objects) (refs : List (ObjectID × ObjectRef))
    (msg : Text) : Prop where
  phrase : contains msg "unavailable for consumption" = true
    ∨ contains msg "version" = true
  names : parseObjectIds msg = []
    ∨ ∃ r ∈ refs, objects r.1 ≠ some r.2 ∧ Mentions msg r.1

/-- A transaction of these inputs is turned down, and the cache then. The
label has the coin the node offers and the words of the error. -/
def Rejected (objects : Objects) (inputs : List ObjectID)
    (c : VersionCache) (l : Option (ObjectID × ObjectRef) × Text)
    (c' : VersionCache) : Prop :=
  (∀ coin, l.1 = some coin → objects coin.1 = some coin.2)
    ∧ ∃ cache refs, c.build objects l.1 inputs = (cache, some refs)
      ∧ current objects refs = false ∧ SaysStale objects refs l.2
      ∧ c' = cache.finish (.error l.2)

/-- A reference is cached that is not the current one. -/
def VersionCache.Stale (objects : Objects) (c : VersionCache)
    (id : ObjectID) : Prop :=
  c.objVers id ≠ none ∧ c.objVers id ≠ objects id

instance (objects : Objects) (c : VersionCache) (id : ObjectID) :
    Decidable (c.Stale objects id) :=
  inferInstanceAs (Decidable (_ ∧ _))

def VersionCache.staleInputs (objects : Objects) (inputs : List ObjectID)
    (c : VersionCache) : Finset ObjectID :=
  inputs.toFinset.filter fun id => c.Stale objects id

def VersionCache.staleGas (objects : Objects) (c : VersionCache) : Nat :=
  if c.gasCoin.any fun coin => objects coin.1 ≠ some coin.2 then 1 else 0

/-- The stale references a transaction of these inputs can meet. -/
def VersionCache.staleRefs (objects : Objects) (inputs : List ObjectID)
    (c : VersionCache) : Nat :=
  (c.staleInputs objects inputs).card + c.staleGas objects

/-- The objects with the references that an answer lists. -/
def applied (changes : List ObjectChange) (objects : Objects) : Objects :=
  (changes.filterMap ObjectChange.entry).foldl
    (fun objects e => Function.update objects e.1 (some e.2)) objects

/-- The client has its objects to itself, the coins `G` apart: the node
tells what is current, what was answered is all there was, an abort moves
no more than the gas coin, and others leave alone what is cached. -/
def Undisturbed (G : Set ObjectID) (s : Versioned) :
    Versioned.Event → Prop
  | .submit _ getObject getCoin outcome objects =>
      getObject = s.objects
        ∧ (∀ coin, getCoin = some coin → coin.1 ∈ G)
        ∧ match outcome with
          | .error _ => objects = s.objects
          | .response true _ => ∀ id, id ∉ G → objects id = s.objects id
          | .response false changes => ∀ id,
              objects id = none ∨ objects id = applied changes s.objects id
  | .outside objects => ∀ id, s.cache.objVers id ≠ none → id ∉ G →
      objects id = none ∨ objects id = s.objects id

/-- What is cached is current, or its object is gone. -/
def Coherent (G : Set ObjectID) (objects : Objects) (c : VersionCache) :
    Prop :=
  ∀ id r, c.objVers id = some r → id ∉ G →
    objects id = none ∨ objects id = some r

-- ========================================================= ids in an error

theorem padded_digits (id : ObjectID) :
    Hex.digits 0 (Hex.padded 64 id.toNat) = some id.toNat := by
  rw [Hex.padded, Hex.digits_zeros, Hex.digits_toDigits]

theorem isHexDigit_of_padded {width n : Nat} :
    ∀ c ∈ Hex.padded width n, isHexDigit c = true := by
  intro c hc
  have hdigit : ∃ d < 16, c = d.digitChar := by
    rcases List.mem_append.mp hc with hc | hc
    · exact ⟨0, by decide, (List.mem_replicate.mp hc).2⟩
    · exact Hex.toDigits_lower n c hc
  obtain ⟨d, hd, rfl⟩ := hdigit
  rw [isHexDigit, Hex.value_digitChar hd]
  rfl

theorem idOfRun_padded (id : ObjectID) :
    idOfRun (Hex.padded 64 id.toNat) = [id] := by
  have hlen : (Hex.padded 64 id.toNat).length = 64 :=
    Hex.length_padded (by
      have := id.isLt
      calc id.toNat < 2 ^ 256 := this
        _ = 16 ^ (63 + 1) := by decide +kernel)
  rw [idOfRun, if_pos hlen, padded_digits]
  simp

/-- At the id itself. -/
theorem mem_parseObjectIds_here {id : ObjectID} {after : Text}
    (hafter : ∀ c rest, after = c :: rest → isHexDigit c = false) :
    id ∈ parseObjectIds (written id ++ after) := by
  have hrun : (Hex.padded 64 id.toNat ++ after).takeWhile isHexDigit
      = Hex.padded 64 id.toNat := by
    rw [List.takeWhile_append_of_pos isHexDigit_of_padded]
    cases after with
    | nil => rw [List.takeWhile_nil, List.append_nil]
    | cons c rest =>
        rw [List.takeWhile_cons_of_neg (by rw [hafter c rest rfl]; decide),
          List.append_nil]
  rw [written, List.cons_append, List.cons_append, parseObjectIds,
    if_pos ⟨rfl, rfl⟩]
  show id ∈ idOfRun ((Hex.padded 64 id.toNat ++ after).takeWhile isHexDigit)
    ++ _
  rw [hrun, idOfRun_padded]
  exact List.mem_cons_self

/-- What follows `0x` up to a written id: the run of digits ends before
it. -/
theorem dropWhile_before {before : Text} (w : Text) (hne : before ≠ [])
    (hlast : ∀ pre c, before = pre ++ [c] → isHexDigit c = false) :
    (before ++ w).dropWhile isHexDigit
        = before.dropWhile isHexDigit ++ w
      ∧ before.dropWhile isHexDigit ≠ [] := by
  have hrest : before.dropWhile isHexDigit ≠ [] := by
    intro hnil
    have hall := List.dropWhile_eq_nil_iff.mp hnil
    have hdigit := hall _ (List.getLast_mem hne)
    rw [hlast _ _ (List.dropLast_append_getLast hne).symm] at hdigit
    cases hdigit
  refine ⟨?_, hrest⟩
  rw [List.dropWhile_append, if_neg]
  rw [List.isEmpty_iff]
  exact hrest

/-- An id that stands by itself is found. -/
theorem mem_parseObjectIds {msg : Text} {id : ObjectID}
    (h : Mentions msg id) : id ∈ parseObjectIds msg := by
  obtain ⟨before, after, rfl, hbefore, hafter⟩ := h
  induction hn : before.length using Nat.strongRecOn generalizing before with
  | ind n ih =>
      have hsuffix : ∀ t u, before = t ++ u → u.length < n →
          id ∈ parseObjectIds (u ++ (written id ++ after)) := by
        rintro t u rfl hlt
        refine ih _ hlt u ?_ rfl
        rintro pre c rfl
        exact hbefore (t ++ pre) c (List.append_assoc ..).symm
      cases before with
      | nil => exact mem_parseObjectIds_here hafter
      | cons c rest =>
          have hskip := hsuffix [c] rest rfl (by
            rw [← hn]
            exact Nat.lt_succ_self _)
          rw [List.cons_append, parseObjectIds]
          split
          case isFalse => exact hskip
          case isTrue hx =>
              cases rest with
              | nil =>
                  exact absurd (show some '0' = some 'x' from hx.2)
                    (by decide)
              | cons d tail =>
                  obtain rfl : d = 'x' := Option.some.inj hx.2
                  have hne : tail ≠ [] := by
                    rintro rfl
                    exact (hbefore [c] 'x' rfl).1 rfl
                  obtain ⟨hdrop, -⟩ := dropWhile_before
                    (written id ++ after) hne fun pre e he =>
                      (hbefore (c :: 'x' :: pre) e (by rw [he]; rfl)).2
                  apply List.mem_append_right
                  show id ∈ parseObjectIds
                    ((tail ++ (written id ++ after)).dropWhile isHexDigit)
                  rw [hdrop]
                  refine hsuffix
                    (c :: 'x' :: tail.takeWhile isHexDigit) _ ?_ ?_
                  · rw [List.cons_append, List.cons_append,
                      List.takeWhile_append_dropWhile]
                  · have := (List.dropWhile_sublist isHexDigit
                      (l := tail)).length_le
                    rw [← hn, List.length_cons, List.length_cons]
                    omega

-- ============================================================== the fetches

/-- Nothing cached is lost or replaced; what is new is as the node has
it. -/
def Grown (getObject : Objects) (c c' : VersionCache) : Prop :=
  ∀ id, c'.objVers id = c.objVers id
    ∨ (c.objVers id = none ∧ c'.objVers id = getObject id)

theorem Grown.refl (getObject : Objects) (c : VersionCache) :
    Grown getObject c c :=
  fun _ => .inl rfl

theorem Grown.trans {getObject : Objects} {c d e : VersionCache}
    (h : Grown getObject c d) (h' : Grown getObject d e) :
    Grown getObject c e := by
  intro id
  rcases h id with hcd | ⟨hnone, hcd⟩
  · rcases h' id with hde | ⟨hnone, hde⟩
    · exact .inl (hde.trans hcd)
    · exact .inr ⟨hcd ▸ hnone, hde⟩
  · rcases h' id with hde | ⟨-, hde⟩
    · exact .inr ⟨hnone, hde.trans hcd⟩
    · exact .inr ⟨hnone, hde⟩

theorem Grown.cached {getObject : Objects} {c c' : VersionCache}
    {id : ObjectID} {r : ObjectRef} (h : Grown getObject c c')
    (hr : c.objVers id = some r) : c'.objVers id = some r := by
  rcases h id with heq | ⟨hnone, -⟩
  · exact heq.trans hr
  · rw [hr] at hnone
    cases hnone

theorem VersionCache.getVer_some {getObject : Objects}
    {c c' : VersionCache} {id : ObjectID} {r : ObjectRef}
    (h : c.getVer getObject id = some (c', r)) :
    c'.gasCoin = c.gasCoin ∧ Grown getObject c c'
      ∧ c'.objVers id = some r := by
  unfold getVer at h
  split at h
  case h_1 cached hcached =>
      cases h
      exact ⟨rfl, Grown.refl getObject c, hcached⟩
  case h_2 hnone =>
      obtain ⟨entry, hentry, h⟩ := Option.map_eq_some_iff.mp h
      cases h
      refine ⟨rfl, fun id' => ?_, Function.update_self ..⟩
      rcases eq_or_ne id' id with rfl | hne
      · exact .inr ⟨hnone, (Function.update_self ..).trans hentry.symm⟩
      · exact .inl (Function.update_of_ne hne _ _)

/-- Each reference that goes in is what the cache has for its input
afterwards. -/
theorem VersionCache.getVers_eq {getObject : Objects}
    {ids : List ObjectID} {c c' : VersionCache}
    {out : Option (List (ObjectID × ObjectRef))}
    (h : c.getVers getObject ids = (c', out)) :
    c'.gasCoin = c.gasCoin ∧ Grown getObject c c'
      ∧ ∀ refs, out = some refs → refs.map Prod.fst = ids
        ∧ ∀ r ∈ refs, c'.objVers r.1 = some r.2 := by
  induction ids generalizing c c' out with
  | nil =>
      cases h
      refine ⟨rfl, Grown.refl getObject c, fun refs hrefs => ?_⟩
      cases hrefs
      exact ⟨rfl, fun _ hr => by cases hr⟩
  | cons id ids ih =>
      unfold getVers at h
      split at h
      case h_1 =>
          cases h
          exact ⟨rfl, Grown.refl getObject c, fun _ hrefs => by cases hrefs⟩
      case h_2 d r hget =>
          obtain ⟨hgas, hgrown, hr⟩ := getVer_some hget
          generalize hrest : d.getVers getObject ids = p at h
          obtain ⟨e, rest⟩ := p
          cases h
          obtain ⟨hgas', hgrown', hrefs⟩ := ih hrest
          refine ⟨hgas'.trans hgas, hgrown.trans hgrown', ?_⟩
          intro refs hout
          obtain ⟨refs, rfl, rfl⟩ := Option.map_eq_some_iff.mp hout
          obtain ⟨hids, hcached⟩ := hrefs refs rfl
          refine ⟨congrArg (id :: ·) hids, ?_⟩
          intro r' hr'
          rcases List.mem_cons.mp hr' with rfl | hr'
          · exact hgrown'.cached hr
          · exact hcached r' hr'

/-- What a transaction is built from, and the cache then. -/
theorem VersionCache.build_eq {getObject : Objects}
    {getCoin : Option (ObjectID × ObjectRef)} {inputs : List ObjectID}
    {c c' : VersionCache} {out : Option (List (ObjectID × ObjectRef))}
    (h : c.build getObject getCoin inputs = (c', out)) :
    Grown getObject c c'
      ∧ ∀ refs, out = some refs → ∃ coin rest, refs = coin :: rest
        ∧ c'.gasCoin = some coin ∧ (c.gasCoin.or getCoin) = some coin
        ∧ rest.map Prod.fst = inputs
        ∧ ∀ r ∈ rest, c'.objVers r.1 = some r.2 := by
  unfold build at h
  generalize hget : c.getVers getObject inputs = p at h
  obtain ⟨d, refs⟩ := p
  obtain ⟨hgas, hgrown, hrefs⟩ := getVers_eq hget
  cases refs with
  | none =>
      cases h
      exact ⟨hgrown, fun _ hout => by cases hout⟩
  | some rest =>
      obtain ⟨hids, hcached⟩ := hrefs rest rfl
      dsimp only at h
      unfold gasRef at h
      rw [hgas] at h
      cases hcoin : c.gasCoin with
      | some coin =>
          rw [hcoin] at h
          cases h
          refine ⟨hgrown, fun refs hout => ?_⟩
          cases hout
          exact ⟨coin, rest, rfl, hgas.trans hcoin, rfl, hids, hcached⟩
      | none =>
          rw [hcoin] at h
          cases getCoin with
          | none =>
              cases h
              exact ⟨hgrown, fun _ hout => by cases hout⟩
          | some coin =>
              cases h
              refine ⟨hgrown, fun refs hout => ?_⟩
              cases hout
              exact ⟨coin, rest, rfl, rfl, rfl, hids, hcached⟩

/-- What was fetched is not stale. -/
theorem Grown.stale {objects : Objects} {c c' : VersionCache}
    {id : ObjectID} (h : Grown objects c c')
    (hstale : c'.Stale objects id) : c.Stale objects id := by
  rcases h id with heq | ⟨-, hfetched⟩
  · exact ⟨heq ▸ hstale.1, heq ▸ hstale.2⟩
  · exact absurd hfetched hstale.2

-- ============================================================ the rejections

/-- An error forgets, and adds nothing. -/
theorem VersionCache.objVers_invalidate (c : VersionCache) (msg : Text)
    (id : ObjectID) : (c.invalidate msg).objVers id = none
      ∨ (c.invalidate msg).objVers id = c.objVers id := by
  unfold invalidate
  dsimp only
  split
  case isFalse => exact .inr rfl
  case isTrue =>
      split
      case isTrue => exact .inl rfl
      case isFalse =>
          dsimp only
          split
          case isTrue => exact .inl rfl
          case isFalse => exact .inr rfl

theorem VersionCache.gasCoin_invalidate (c : VersionCache) (msg : Text) :
    (c.invalidate msg).gasCoin = none := by
  unfold invalidate
  dsimp only
  split
  case isFalse => rfl
  case isTrue =>
      split
      case isTrue => rfl
      case isFalse => rfl

/-- One that tells what was stale forgets it. -/
theorem SaysStale.forgets {objects : Objects}
    {refs : List (ObjectID × ObjectRef)} {msg : Text} {c : VersionCache}
    (h : SaysStale objects refs msg) :
    (∀ id, (c.invalidate msg).objVers id = none)
      ∨ ∃ r ∈ refs, objects r.1 ≠ some r.2
        ∧ (c.invalidate msg).objVers r.1 = none := by
  have hphrase : (contains msg "unavailable for consumption"
      || contains msg "version") = true := by
    rw [Bool.or_eq_true]
    exact h.phrase
  unfold VersionCache.invalidate
  dsimp only
  rw [if_pos hphrase]
  by_cases hids : parseObjectIds msg = []
  · left
    intro id
    rw [if_pos hids]
  · right
    rcases h.names with hnone | ⟨r, hr, hstale, hmentions⟩
    · exact absurd hnone hids
    · refine ⟨r, hr, hstale, ?_⟩
      rw [if_neg hids]
      exact if_pos (mem_parseObjectIds hmentions)

/-- A rejection drops a stale reference. -/
theorem Rejected.drops {objects : Objects} {inputs : List ObjectID}
    {c c' : VersionCache} {l : Option (ObjectID × ObjectRef) × Text}
    (h : Rejected objects inputs c l c') :
    c'.staleRefs objects inputs < c.staleRefs objects inputs := by
  obtain ⟨hcoin, cache, refs, hbuild, hnot, hsays, rfl⟩ := h
  obtain ⟨hgrown, hrefs⟩ := VersionCache.build_eq hbuild
  obtain ⟨coin, rest, rfl, -, hgas, hids, hcached⟩ := hrefs refs rfl
  have hforgot : ∀ id,
      (cache.finish (.error l.2)).Stale objects id → c.Stale objects id := by
    intro id hstale
    rcases cache.objVers_invalidate l.2 id with hnone | hsame
    · exact absurd hnone hstale.1
    · exact hgrown.stale ⟨hsame ▸ hstale.1, hsame ▸ hstale.2⟩
  have hsub : (cache.finish (.error l.2)).staleInputs objects inputs
      ⊆ c.staleInputs objects inputs :=
    Finset.monotone_filter_right _ fun id _ => hforgot id
  have hnogas : (cache.finish (.error l.2)).staleGas objects = 0 := by
    rw [VersionCache.staleGas, VersionCache.finish,
      VersionCache.gasCoin_invalidate]
    rfl
  -- A stale gas coin was cached: what the node offers is current.
  have hstalegas : objects coin.1 ≠ some coin.2 →
      c.staleGas objects = 1 := by
    intro hne
    have hheld : c.gasCoin = some coin := by
      cases hc : c.gasCoin with
      | some held =>
          rw [hc] at hgas
          exact hgas
      | none =>
          rw [hc] at hgas
          exact absurd (hcoin coin hgas) hne
    rw [VersionCache.staleGas, hheld, if_pos]
    exact decide_eq_true hne
  have hstaleinput : ∀ r ∈ rest, objects r.1 ≠ some r.2 →
      r.1 ∈ c.staleInputs objects inputs := by
    intro r hr hne
    refine Finset.mem_filter.mpr ⟨?_, hgrown.stale ⟨?_, ?_⟩⟩
    · rw [List.mem_toFinset, ← hids]
      exact List.mem_map_of_mem hr
    · rw [hcached r hr]
      exact Option.some_ne_none _
    · rw [hcached r hr]
      exact hne.symm
  have hcard := Finset.card_le_card hsub
  -- An input that is stale and forgotten leaves the set.
  have hinput : ∀ r ∈ rest, objects r.1 ≠ some r.2 →
      (cache.finish (.error l.2)).objVers r.1 = none →
      ((cache.finish (.error l.2)).staleInputs objects inputs).card
        < (c.staleInputs objects inputs).card := by
    intro r hr hne hnone
    refine Finset.card_lt_card (Finset.ssubset_iff_subset_ne.mpr
      ⟨hsub, fun heq => ?_⟩)
    have hmem := hstaleinput r hr hne
    rw [← heq] at hmem
    exact (Finset.mem_filter.mp hmem).2.1 hnone
  have hdrop : objects coin.1 ≠ some coin.2
      ∨ ∃ r ∈ rest, objects r.1 ≠ some r.2
        ∧ (cache.finish (.error l.2)).objVers r.1 = none := by
    rcases hsays.forgets (c := cache) with hall | ⟨r, hr, hne, hnone⟩
    · have hone : ∃ r ∈ coin :: rest, objects r.1 ≠ some r.2 := by
        by_contra hall'
        push Not at hall'
        rw [current, List.all_eq_true.mpr] at hnot
        · cases hnot
        · exact fun r hr => decide_eq_true (hall' r hr)
      obtain ⟨r, hr, hne⟩ := hone
      rcases List.mem_cons.mp hr with rfl | hr
      · exact .inl hne
      · exact .inr ⟨r, hr, hne, hall r.1⟩
    · rcases List.mem_cons.mp hr with rfl | hr
      · exact .inl hne
      · exact .inr ⟨r, hr, hne, hnone⟩
  unfold VersionCache.staleRefs
  rcases hdrop with hne | ⟨r, hr, hne, hnone⟩
  · have := hstalegas hne
    omega
  · have := hinput r hr hne hnone
    omega

/-- On a chain at rest a transaction is turned down at most once for each
stale reference cached for it. -/
theorem rejections_bounded {objects : Objects} {inputs : List ObjectID}
    {c c' : VersionCache}
    {ls : List (Option (ObjectID × ObjectRef) × Text)}
    (h : Trace (Rejected objects inputs) c ls c') :
    ls.length + c'.staleRefs objects inputs
      ≤ c.staleRefs objects inputs := by
  induction h with
  | nil => exact Nat.le_of_eq (Nat.zero_add _)
  | cons hrejected _ ih =>
      have := hrejected.drops
      rw [List.length_cons]
      omega

/-- Object 1 was moved on by others, and validators say so. -/
theorem rejections_bounded_moved :
    ∃ c', 1 + VersionCache.staleRefs (fun _ => some ⟨2, []⟩) [1] c'
      ≤ VersionCache.staleRefs (fun _ => some ⟨2, []⟩) [1]
        ⟨fun _ => some ⟨1, []⟩, none⟩ := by
  have hrejected : ∃ c', Rejected (fun _ => some ⟨2, []⟩) [1]
      ⟨fun _ => some ⟨1, []⟩, none⟩ (some (7, ⟨2, []⟩),
        "Object ".toList ++ (written 1
          ++ " is unavailable for consumption".toList)) c' := by
    refine ⟨_, fun coin hcoin => ?_, _, _, rfl, rfl, ?_, rfl⟩
    · cases hcoin
      rfl
    · refine ⟨.inl (by decide +kernel), .inr ⟨(1, ⟨1, []⟩), ?_, ?_, ?_⟩⟩
      · exact List.mem_cons_of_mem _ (List.mem_cons_self ..)
      · decide
      · refine ⟨_, _, rfl, ?_, ?_⟩
        · intro pre c h
          have h' : "Object".toList ++ [' '] = pre ++ [c] := h
          obtain ⟨-, hc⟩ := List.append_inj' h' rfl
          injection hc with hc
          rw [← hc]
          decide
        · intro c rest h
          cases h
          decide
  obtain ⟨c', hrejected⟩ := hrejected
  exact ⟨c', rejections_bounded (.single hrejected)⟩

-- ================================================================ coherence

theorem VersionCache.objVers_updateFromResp (c : VersionCache)
    (changes : List ObjectChange) :
    (c.updateFromResp changes).objVers = applied changes c.objVers := by
  unfold updateFromResp applied
  dsimp only
  induction changes.filterMap ObjectChange.entry generalizing c with
  | nil => rfl
  | cons e es ih => exact ih (c.insert e.1 e.2)

/-- An object is listed, or it is not, whatever was known of it. -/
theorem applied_or (changes : List ObjectChange) (f g : Objects)
    (id : ObjectID) : applied changes f id = applied changes g id
      ∨ (applied changes f id = f id ∧ applied changes g id = g id) := by
  unfold applied
  induction changes.filterMap ObjectChange.entry generalizing f g with
  | nil => exact .inr ⟨rfl, rfl⟩
  | cons e es ih =>
      rw [List.foldl_cons, List.foldl_cons]
      rcases ih (Function.update f e.1 (some e.2))
        (Function.update g e.1 (some e.2)) with heq | ⟨hf, hg⟩
      · exact .inl heq
      · rw [hf, hg]
        rcases eq_or_ne id e.1 with rfl | hne
        · left
          rw [Function.update_self, Function.update_self]
        · right
          rw [Function.update_of_ne hne, Function.update_of_ne hne]
          exact ⟨rfl, rfl⟩

theorem Coherent.grown {G : Set ObjectID} {objects : Objects}
    {c c' : VersionCache} (h : Coherent G objects c)
    (hgrown : Grown objects c c') : Coherent G objects c' := by
  intro id r hr hid
  rcases hgrown id with heq | ⟨-, hfetched⟩
  · exact h id r (heq ▸ hr) hid
  · exact .inr (hfetched ▸ hr)

theorem Coherent.invalidate {G : Set ObjectID} {objects : Objects}
    {c : VersionCache} (h : Coherent G objects c) (msg : Text) :
    Coherent G objects (c.invalidate msg) := by
  intro id r hr hid
  rcases c.objVers_invalidate msg id with hnone | hsame
  · rw [hnone] at hr
    cases hr
  · exact h id r (hsame ▸ hr) hid

/-- The answer lists what it changed. -/
theorem Coherent.updateFromResp {G : Set ObjectID}
    {objects objects' : Objects} {c : VersionCache}
    {changes : List ObjectChange} (h : Coherent G objects c)
    (hlisted : ∀ id,
      objects' id = none ∨ objects' id = applied changes objects id) :
    Coherent G objects' (c.updateFromResp changes) := by
  intro id r hr hid
  rw [VersionCache.objVers_updateFromResp] at hr
  rcases hlisted id with hnone | hobj
  · exact .inl hnone
  · rw [hobj]
    rcases applied_or changes c.objVers objects id with heq | ⟨hc, hobj⟩
    · exact .inr (heq ▸ hr)
    · rw [hobj]
      exact h id r (hc ▸ hr) hid

/-- What others do not touch stays. -/
theorem Coherent.moved {G : Set ObjectID} {objects objects' : Objects}
    {c : VersionCache} (h : Coherent G objects c)
    (hmoved : ∀ id, c.objVers id ≠ none → id ∉ G →
      objects' id = none ∨ objects' id = objects id) :
    Coherent G objects' c := by
  intro id r hr hid
  rcases hmoved id (by rw [hr]; exact Option.some_ne_none r) hid
    with hnone | hsame
  · exact .inl hnone
  · rw [hsame]
    exact h id r hr hid

theorem Coherent.step {G : Set ObjectID} {s s' : Versioned}
    {e : Versioned.Event} (h : Coherent G s.objects s.cache)
    (hok : Undisturbed G s e) (hstep : s.step e = .ok s') :
    Coherent G s'.objects s'.cache := by
  cases e with
  | outside objects =>
      cases hstep
      exact h.moved hok
  | submit inputs getObject getCoin outcome objects =>
      obtain ⟨rfl, -, hout⟩ := hok
      unfold Versioned.step at hstep
      dsimp only at hstep
      split at hstep
      case h_1 cache hbuild =>
          cases hstep
          exact h.grown (VersionCache.build_eq hbuild).1
      case h_2 cache refs hbuild =>
          have hbuilt := h.grown (VersionCache.build_eq hbuild).1
          cases outcome with
          | error msg =>
              cases hstep
              dsimp only at hout ⊢
              rw [hout]
              exact hbuilt.invalidate msg
          | response aborted changes =>
              dsimp only at hstep
              split at hstep
              case isFalse => cases hstep
              case isTrue =>
                  cases hstep
                  cases aborted with
                  | true =>
                      exact hbuilt.moved fun id _ hid => .inr (hout id hid)
                  | false => exact hbuilt.updateFromResp hout

theorem coherent {objects : Objects} {G : Set ObjectID} {s : Versioned}
    (h : Machine.ReachVia (versioned objects) (Undisturbed G) s) :
    Coherent G s.objects s.cache := by
  refine h.invariant (I := fun s => Coherent G s.objects s.cache) ?_ ?_
  · intro id r hr
    cases hr
  · intro s e s' hs hok hstep
    exact hs.step hok hstep

/-- A transaction of inputs that are there goes in with their current
references, if they are not coins. -/
theorem Coherent.inputs {G : Set ObjectID} {objects : Objects}
    {c c' : VersionCache} {getCoin : Option (ObjectID × ObjectRef)}
    {inputs : List ObjectID} {coin : ObjectID × ObjectRef}
    {refs : List (ObjectID × ObjectRef)} (h : Coherent G objects c)
    (hin : ∀ id ∈ inputs, id ∉ G ∧ objects id ≠ none)
    (hbuild : c.build objects getCoin inputs = (c', some (coin :: refs))) :
    current objects refs = true := by
  obtain ⟨hgrown, hrefs⟩ := VersionCache.build_eq hbuild
  obtain ⟨_, _, heq, -, -, hids, hcached⟩ := hrefs _ rfl
  cases heq
  refine List.all_eq_true.mpr fun r hr => decide_eq_true ?_
  have hmem : r.1 ∈ inputs := hids ▸ List.mem_map_of_mem hr
  obtain ⟨hcoin, hthere⟩ := hin r.1 hmem
  exact ((h.grown hgrown) r.1 r.2 (hcached r hr) hcoin).resolve_left hthere

/-- Inputs that are there are all found. -/
theorem VersionCache.getVers_total {objects : Objects}
    {inputs : List ObjectID} (c : VersionCache)
    (hin : ∀ id ∈ inputs, objects id ≠ none) :
    ∃ c' refs, c.getVers objects inputs = (c', some refs) := by
  induction inputs generalizing c with
  | nil => exact ⟨c, [], rfl⟩
  | cons id ids ih =>
      have hget : ∃ d r, c.getVer objects id = some (d, r) := by
        unfold getVer
        cases c.objVers id with
        | some cached => exact ⟨c, cached, rfl⟩
        | none =>
            obtain ⟨entry, hentry⟩ :=
              Option.ne_none_iff_exists'.mp (hin id List.mem_cons_self)
            exact ⟨c.insert id entry, entry, by rw [hentry]; rfl⟩
      obtain ⟨d, r, hget⟩ := hget
      obtain ⟨e, refs, hrest⟩ :=
        ih d fun id' hid => hin id' (List.mem_cons_of_mem id hid)
      refine ⟨e, (id, r) :: refs, ?_⟩
      unfold getVers
      rw [hget]
      dsimp only
      rw [hrest]
      rfl

/-- Object 1, and 7 for gas. -/
def pairAt (a b : U64) : Objects := fun id =>
  if id = 1 then some ⟨a, []⟩ else if id = 7 then some ⟨b, []⟩ else none

end M1n3Protocol.Client
