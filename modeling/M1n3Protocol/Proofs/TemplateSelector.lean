/-
What the pooled server selects, and what there is for it to select.

# The cache

`Ranks` says what a cache is made of: some registry in some order, each
ranking that of its active templates. A selection is right by what the
cache itself says of its templates (`Right`), whatever the order was.

# The chain

A node renders an object as its fields, and a template on chain has none
by the name the server looks for. `Renders` is what the server relies on of
a node's answer: each field as a number, a text or a list, and no others.
-/
import M1n3Protocol.Stratum.TemplateSelector
import M1n3Protocol.Proofs.PooledShares

namespace M1n3Protocol.Pooled

open Sidecar (Json)

-- ============================================================ the registry

/-- The ids of a registry are its keys. -/
theorem nodup_insert {registry : RegistryState} {templateId : Text}
    {data : TemplateData} (h : (registry.map Prod.fst).Nodup) :
    ((registry.insert templateId data).map Prod.fst).Nodup := by
  unfold RegistryState.insert
  rw [List.map_append, List.map_singleton, List.nodup_append]
  refine ⟨h.sublist (List.filter_sublist.map _), List.nodup_singleton _, ?_⟩
  intro a ha b hb
  obtain ⟨p, hp, rfl⟩ := List.mem_map.mp ha
  rw [List.mem_singleton.mp hb]
  exact of_decide_eq_true (List.mem_filter.mp hp).2

theorem nodup_fetched (fetchTemplate : Text → Option ObjectData)
    (templateIds : List Text) :
    ((fetchRegistryState fetchTemplate templateIds).map Prod.fst).Nodup := by
  unfold fetchRegistryState
  induction templateIds using List.reverseRecOn with
  | nil => exact List.nodup_nil
  | append_singleton ids id ih =>
      rw [List.foldl_append, List.foldl_cons, List.foldl_nil]
      cases fetchTemplate id with
      | none => exact ih
      | some tpl => exact nodup_insert ih

/-- What holds of every template fetched holds of the registry. -/
theorem fetched_all {P : TemplateData → Prop}
    {fetchTemplate : Text → Option ObjectData} {templateIds : List Text}
    (hP : ∀ id tpl, fetchTemplate id = some tpl →
      P ⟨tpl.owner, tpl.height, tpl.shareCount, 0, tpl.isActive⟩) :
    ∀ entry ∈ fetchRegistryState fetchTemplate templateIds, P entry.2 := by
  unfold fetchRegistryState
  induction templateIds using List.reverseRecOn with
  | nil =>
      intro entry hentry
      cases hentry
  | append_singleton ids id ih =>
      rw [List.foldl_append, List.foldl_cons, List.foldl_nil]
      cases htpl : fetchTemplate id with
      | none => exact ih
      | some tpl =>
          intro entry hentry
          rcases List.mem_append.mp hentry with hentry | hentry
          · exact ih entry (List.mem_filter.mp hentry).1
          · rw [List.mem_singleton.mp hentry]
            exact hP id tpl htpl

-- =============================================================== the cache

/-- The registry's active templates, with what they are ranked by. -/
def activeBy {w : Nat} (f : CachedTemplate → BitVec w)
    (order : RegistryState) : List (Text × BitVec w) :=
  (order.filter fun entry => entry.2.isActive).map fun entry =>
    (entry.1, f (.of entry.2))

/-- A cache filled from a registry, its rankings as they were pushed. -/
structure Filled (order : RegistryState) (cache : TemplateCache) : Prop where
  templates : ∀ id, cache.templates id
    = (order.lookup id).map CachedTemplate.of
  byCreator : ∀ creator, cache.byCreator creator
    = (order.filter fun entry => entry.2.creator = creator).map Prod.fst
  stake : cache.stakeRanking = activeBy CachedTemplate.totalStake order
  shares : cache.sharesRanking = activeBy CachedTemplate.shareCount order
  combined : cache.combinedRanking
    = activeBy CachedTemplate.combinedScore order

theorem lookup_concat {order : RegistryState} {entry : Text × TemplateData}
    (hnew : entry.1 ∉ order.map Prod.fst) (id : Text) :
    (order ++ [entry]).lookup id
      = if id = entry.1 then some entry.2 else order.lookup id := by
  rw [List.lookup_append]
  by_cases hid : id = entry.1
  · subst hid
    have hnone : order.lookup entry.1 = none := by
      rw [List.lookup_eq_none_iff]
      intro p hp
      rw [bne_iff_ne]
      intro heq
      exact hnew (heq ▸ List.mem_map_of_mem hp)
    rw [if_pos rfl, hnone, Option.none_or, List.lookup_cons, beq_self_eq_true]
  · rw [if_neg hid, List.lookup_cons, beq_false_of_ne hid, List.lookup_nil,
      Option.or_none]

theorem activeBy_concat {w : Nat} (f : CachedTemplate → BitVec w)
    (order : RegistryState) (entry : Text × TemplateData) :
    activeBy f (order ++ [entry]) = activeBy f order
      ++ if entry.2.isActive then [(entry.1, f (.of entry.2))] else [] := by
  unfold activeBy
  rw [List.filter_append, List.map_append, List.filter_singleton]
  cases entry.2.isActive <;> rfl

/-- What one turn of the loop adds. -/
structure Populated (cache cache' : TemplateCache) (id : Text)
    (data : TemplateData) : Prop where
  templates : cache'.templates
    = Function.update cache.templates id (some (.of data))
  byCreator : cache'.byCreator = Function.update cache.byCreator
    data.creator (cache.byCreator data.creator ++ [id])
  stake : cache'.stakeRanking = cache.stakeRanking
    ++ if data.isActive then [(id, data.totalStake)] else []
  shares : cache'.sharesRanking = cache.sharesRanking
    ++ if data.isActive then [(id, data.shareCount)] else []
  combined : cache'.combinedRanking = cache.combinedRanking
    ++ if data.isActive then [(id, (CachedTemplate.of data).combinedScore)]
      else []

theorem populate_adds (cache : TemplateCache) (id : Text)
    (data : TemplateData) :
    Populated cache (cache.populate (id, data)) id data := by
  have hactive : (CachedTemplate.of data).isActive = data.isActive := rfl
  unfold TemplateCache.populate
  dsimp only
  rw [hactive]
  cases hactive' : data.isActive with
  | true =>
      rw [if_pos rfl]
      refine ⟨rfl, rfl, ?_, ?_, ?_⟩
      · rw [hactive', if_pos rfl]
        rfl
      · rw [hactive', if_pos rfl]
        rfl
      · rw [hactive', if_pos rfl]
  | false =>
      rw [if_neg Bool.false_ne_true]
      refine ⟨rfl, rfl, ?_, ?_, ?_⟩
      · rw [hactive', if_neg Bool.false_ne_true, List.append_nil]
      · rw [hactive', if_neg Bool.false_ne_true, List.append_nil]
      · rw [hactive', if_neg Bool.false_ne_true, List.append_nil]

theorem Filled.populate {order : RegistryState} {cache : TemplateCache}
    {entry : Text × TemplateData} (h : Filled order cache)
    (hnew : entry.1 ∉ order.map Prod.fst) :
    Filled (order ++ [entry]) (cache.populate entry) := by
  have hadds := populate_adds cache entry.1 entry.2
  refine ⟨fun id => ?_, fun creator => ?_, ?_, ?_, ?_⟩
  · rw [lookup_concat hnew, hadds.templates, Function.update_apply,
      h.templates]
    split <;> rfl
  · rw [hadds.byCreator, Function.update_apply, h.byCreator, h.byCreator,
      List.filter_append, List.map_append, List.filter_singleton]
    by_cases hcreator : creator = entry.2.creator
    · rw [if_pos hcreator, hcreator, decide_eq_true rfl]
      rfl
    · rw [if_neg hcreator, decide_eq_false (Ne.symm hcreator)]
      exact (List.append_nil _).symm
  · rw [hadds.stake, activeBy_concat, h.stake]
    rfl
  · rw [hadds.shares, activeBy_concat, h.shares]
    rfl
  · rw [hadds.combined, activeBy_concat, h.combined]

theorem filled_foldl {order : RegistryState}
    (h : (order.map Prod.fst).Nodup) :
    Filled order (order.foldl TemplateCache.populate .empty) := by
  induction order using List.reverseRecOn with
  | nil => exact ⟨fun _ => rfl, fun _ => rfl, rfl, rfl, rfl⟩
  | append_singleton order entry ih =>
      rw [List.map_append, List.map_singleton, List.nodup_append] at h
      obtain ⟨hnodup, -, hdisjoint⟩ := h
      have hnew : entry.1 ∉ order.map Prod.fst := fun hin =>
        hdisjoint entry.1 hin entry.1 List.mem_cons_self rfl
      rw [List.foldl_append, List.foldl_cons, List.foldl_nil]
      exact (ih hnodup).populate hnew

/-- What a cache says of a template, whether it has been loaded or not. -/
def CachedTemplate.info (t : CachedTemplate) : CachedTemplate :=
  { t with templateObject := none }

/-- A cache of some registry. -/
structure Ranks (order : RegistryState) (cache : TemplateCache) : Prop where
  nodup : (order.map Prod.fst).Nodup
  templates : ∀ id, (cache.templates id).map CachedTemplate.info
    = (order.lookup id).map CachedTemplate.of
  byCreator : ∀ creator, cache.byCreator creator
    = (order.filter fun entry => entry.2.creator = creator).map Prod.fst
  stake : cache.stakeRanking
    = Ranking.ranked score (activeBy CachedTemplate.totalStake order)
  shares : cache.sharesRanking
    = Ranking.ranked score (activeBy CachedTemplate.shareCount order)
  combined : cache.combinedRanking
    = Ranking.ranked score (activeBy CachedTemplate.combinedScore order)

theorem ranks_refresh {order : RegistryState}
    (h : (order.map Prod.fst).Nodup) : Ranks order (refreshCache order) := by
  have hfilled := filled_foldl h
  refine ⟨h, fun id => ?_, hfilled.byCreator, ?_, ?_, ?_⟩
  · unfold refreshCache
    dsimp only
    rw [hfilled.templates, Option.map_map]
    rfl
  · rw [refreshCache, hfilled.stake]
  · rw [refreshCache, hfilled.shares]
  · rw [refreshCache, hfilled.combined]

/-- A template that is loaded ranks as it did. -/
theorem Ranks.load {order : RegistryState} {cache : TemplateCache}
    (h : Ranks order cache) (id : Text) (fetched : Option ObjectData) :
    Ranks order (cache.getTemplateData id fetched).1 := by
  unfold TemplateCache.getTemplateData
  split
  case h_1 => exact h
  case h_2 =>
      split
      case h_1 => exact h
      case h_2 data =>
          refine ⟨h.nodup, fun id' => ?_, h.byCreator, h.stake, h.shares,
            h.combined⟩
          rw [← h.templates id']
          dsimp only
          rw [Function.update_apply]
          split
          case isTrue heq =>
              subst heq
              rw [Option.map_map]
              rfl
          case isFalse => rfl

-- =========================================================== the selection

/-- An active template that no other active one is above. -/
def TemplateCache.Best (cache : TemplateCache) (score : CachedTemplate → Nat)
    (id : Text) : Prop :=
  ∃ t, cache.templates id = some t ∧ t.isActive = true
    ∧ ∀ id' t', cache.templates id' = some t' → t'.isActive = true →
      score t' ≤ score t

/-- What may be selected, by what the cache says of its templates. -/
def TemplateCache.Right (cache : TemplateCache) :
    TemplateSelectionMode → Text → Prop
  | .byCreator creator, id =>
      (∃ t, cache.templates id = some t ∧ t.isActive = true
        ∧ t.creator = creator)
      ∨ ((∀ id' t, cache.templates id' = some t → t.isActive = true →
          t.creator ≠ creator)
        ∧ cache.Best (fun t => t.totalStake.toNat) id)
  | .byStake, id => cache.Best (fun t => t.totalStake.toNat) id
  | .byShares, id => cache.Best (fun t => t.shareCount.toNat) id
  | .combined, id => cache.Best
      (fun t => t.totalStake.toNat * t.shareCount.toNat) id
  | .default, _ => False

theorem lookup_eq_some_iff {order : RegistryState}
    (h : (order.map Prod.fst).Nodup) {id : Text} {data : TemplateData} :
    order.lookup id = some data ↔ (id, data) ∈ order := by
  induction order with
  | nil =>
      rw [List.lookup_nil]
      exact iff_of_false (fun h => by cases h) List.not_mem_nil
  | cons entry order ih =>
      rw [List.map_cons, List.nodup_cons] at h
      rw [List.lookup_cons, List.mem_cons]
      by_cases hid : id = entry.1
      · subst hid
        rw [beq_self_eq_true]
        constructor
        · intro hdata
          exact Or.inl (by rw [← Option.some.inj hdata])
        · rintro (heq | hin)
          · rw [← heq]
          · exact absurd (List.mem_map_of_mem hin) h.1
      · rw [beq_false_of_ne hid]
        dsimp only
        rw [ih h.2]
        constructor
        · exact Or.inr
        · rintro (heq | hin)
          · exact absurd (congrArg Prod.fst heq) hid
          · exact hin

section Rankings

variable {order : RegistryState} {cache : TemplateCache}

/-- The registry's entry of a cached template. -/
theorem Ranks.mem_of_template (h : Ranks order cache) {id : Text}
    {t : CachedTemplate} (ht : cache.templates id = some t) :
    ∃ data, (id, data) ∈ order ∧ t.info = .of data := by
  have hid := h.templates id
  rw [ht, Option.map_some] at hid
  obtain ⟨data, hdata, heq⟩ := Option.map_eq_some_iff.mp hid.symm
  exact ⟨data, (lookup_eq_some_iff h.nodup).mp hdata, heq.symm⟩

theorem Ranks.template_of_mem (h : Ranks order cache) {id : Text}
    {data : TemplateData} (hin : (id, data) ∈ order) :
    ∃ t, cache.templates id = some t ∧ t.info = .of data := by
  have hid := h.templates id
  rw [(lookup_eq_some_iff h.nodup).mpr hin, Option.map_some] at hid
  exact Option.map_eq_some_iff.mp hid

theorem isActive_of_info {t : CachedTemplate} {data : TemplateData}
    (h : t.info = .of data) : t.isActive = data.isActive :=
  congrArg CachedTemplate.isActive h

variable {w : Nat} {f : CachedTemplate → BitVec w}

theorem Ranks.best (h : Ranks order cache) (hinfo : ∀ t, f t.info = f t)
    {id : Text} (hhead : (Ranking.ranked score (activeBy f order)).head?.map
      Prod.fst = some id) :
    cache.Best (fun t => (f t).toNat) id := by
  obtain ⟨⟨id', v⟩, hfirst, rfl⟩ := Option.map_eq_some_iff.mp hhead
  obtain ⟨hmem, hall⟩ := Ranking.head?_eq_some score hfirst
  obtain ⟨⟨id', data⟩, hfiltered, heq⟩ := List.mem_map.mp hmem
  obtain ⟨rfl, rfl⟩ := Prod.mk.inj heq
  obtain ⟨hin, hactive⟩ := List.mem_filter.mp hfiltered
  obtain ⟨t, ht, hdata⟩ := h.template_of_mem hin
  refine ⟨t, ht, (isActive_of_info hdata).trans hactive, ?_⟩
  intro other t' ht' hactive'
  obtain ⟨data', hin', hdata'⟩ := h.mem_of_template ht'
  have hranked : (other, f (.of data')) ∈ activeBy f order := by
    refine List.mem_map.mpr ⟨(other, data'), List.mem_filter.mpr
      ⟨hin', ?_⟩, rfl⟩
    exact (isActive_of_info hdata').symm.trans hactive'
  have hle := hall _ hranked
  rw [← hdata, ← hdata', score, score, hinfo, hinfo] at hle
  exact hle

/-- There is no active template. -/
def TemplateCache.Idle (cache : TemplateCache) : Prop :=
  ∀ id t, cache.templates id = some t → t.isActive = false

theorem Ranks.head?_eq_none (h : Ranks order cache) :
    (Ranking.ranked score (activeBy f order)).head?.map Prod.fst = none
      ↔ cache.Idle := by
  rw [Option.map_eq_none_iff, Ranking.head?_eq_none, activeBy,
    List.map_eq_nil_iff, List.filter_eq_nil_iff]
  constructor
  · intro hnone id t ht
    obtain ⟨data, hin, hdata⟩ := h.mem_of_template ht
    rw [isActive_of_info hdata]
    exact Bool.eq_false_iff.mpr (hnone _ hin)
  · rintro hidle ⟨id, data⟩ hin
    obtain ⟨t, ht, hdata⟩ := h.template_of_mem hin
    have hactive := hidle id t ht
    rw [isActive_of_info hdata] at hactive
    exact Bool.eq_false_iff.mp hactive

/-- A creator's templates are the cached ones of that creator. -/
theorem Ranks.mem_byCreator (h : Ranks order cache) {creator id : Text} :
    id ∈ cache.byCreator creator
      ↔ ∃ t, cache.templates id = some t ∧ t.creator = creator := by
  rw [h.byCreator, List.mem_map]
  constructor
  · rintro ⟨⟨id', data⟩, hin, rfl⟩
    obtain ⟨hin, hcreator⟩ := List.mem_filter.mp hin
    obtain ⟨t, ht, hdata⟩ := h.template_of_mem hin
    refine ⟨t, ht, ?_⟩
    exact (congrArg CachedTemplate.creator hdata).trans
      (of_decide_eq_true hcreator)
  · rintro ⟨t, ht, rfl⟩
    obtain ⟨data, hin, hdata⟩ := h.mem_of_template ht
    refine ⟨(id, data), List.mem_filter.mpr ⟨hin, ?_⟩, rfl⟩
    exact decide_eq_true (congrArg CachedTemplate.creator hdata).symm

theorem find_creator_eq_none (h : Ranks order cache) {creator : Text} :
    (cache.byCreator creator).reverse.find? cache.active = none
      ↔ ∀ id t, cache.templates id = some t → t.isActive = true →
        t.creator ≠ creator := by
  rw [List.find?_eq_none]
  constructor
  · rintro hnone id t ht hactive rfl
    refine hnone id (List.mem_reverse.mpr (h.mem_byCreator.mpr
      ⟨t, ht, rfl⟩)) ?_
    rw [TemplateCache.active, ht]
    exact hactive
  · intro hnone id hid hactive
    obtain ⟨t, ht, hcreator⟩ := h.mem_byCreator.mp (List.mem_reverse.mp hid)
    rw [TemplateCache.active, ht] at hactive
    exact hnone id t ht hactive hcreator

/-- The product of two of 64 bits is of 128. -/
theorem toNat_combinedScore (t : CachedTemplate) :
    t.combinedScore.toNat = t.totalStake.toNat * t.shareCount.toNat := by
  have hstake := t.totalStake.isLt
  have hshares := t.shareCount.isLt
  have hlt : t.totalStake.toNat * t.shareCount.toNat < 2 ^ 64 * 2 ^ 64 :=
    Nat.mul_lt_mul'' hstake hshares
  have hstake' : t.totalStake.toNat % 2 ^ 128 = t.totalStake.toNat :=
    Nat.mod_eq_of_lt (by omega)
  have hshares' : t.shareCount.toNat % 2 ^ 128 = t.shareCount.toNat :=
    Nat.mod_eq_of_lt (by omega)
  rw [CachedTemplate.combinedScore, BitVec.toNat_mul, BitVec.toNat_setWidth,
    BitVec.toNat_setWidth, hstake', hshares']
  exact Nat.mod_eq_of_lt hlt

theorem Ranks.right (h : Ranks order cache) {mode : TemplateSelectionMode}
    {id : Text} (hsel : cache.selectTemplate mode = some id) :
    cache.Right mode id := by
  have hstake : cache.stakeRanking.head?.map Prod.fst = some id →
      cache.Best (fun t => t.totalStake.toNat) id := by
    rw [h.stake]
    exact h.best fun _ => rfl
  cases mode with
  | byStake => exact hstake hsel
  | byShares =>
      unfold TemplateCache.selectTemplate at hsel
      dsimp only at hsel
      rw [h.shares] at hsel
      exact h.best (fun _ => rfl) hsel
  | combined =>
      unfold TemplateCache.selectTemplate at hsel
      dsimp only at hsel
      rw [h.combined] at hsel
      have hbest := h.best (fun _ => rfl) hsel
      simp only [toNat_combinedScore] at hbest
      exact hbest
  | default => cases hsel
  | byCreator creator =>
      rcases Option.or_eq_some_iff.mp hsel with hfound | ⟨hnone, hfirst⟩
      · obtain ⟨t, ht, hcreator⟩ := h.mem_byCreator.mp
          (List.mem_reverse.mp (List.mem_of_find?_eq_some hfound))
        have hactive := List.find?_some hfound
        rw [TemplateCache.active, ht] at hactive
        exact Or.inl ⟨t, ht, hactive, hcreator⟩
      · exact Or.inr ⟨(find_creator_eq_none h).mp hnone, hstake hfirst⟩

theorem Ranks.select_eq_none (h : Ranks order cache)
    {mode : TemplateSelectionMode} (hmode : mode ≠ .default) :
    cache.selectTemplate mode = none ↔ cache.Idle := by
  have hstake : cache.stakeRanking.head?.map Prod.fst = none
      ↔ cache.Idle := by
    rw [h.stake]
    exact h.head?_eq_none
  cases mode with
  | byStake => exact hstake
  | byShares =>
      unfold TemplateCache.selectTemplate
      dsimp only
      rw [h.shares]
      exact h.head?_eq_none
  | combined =>
      unfold TemplateCache.selectTemplate
      dsimp only
      rw [h.combined]
      exact h.head?_eq_none
  | default => exact absurd rfl hmode
  | byCreator creator =>
      unfold TemplateCache.selectTemplate
      dsimp only
      rw [Option.or_eq_none_iff, find_creator_eq_none h, hstake]
      constructor
      · exact fun hnone => hnone.2
      · intro hidle
        refine ⟨fun id t ht hactive => ?_, hidle⟩
        rw [hidle id t ht] at hactive
        cases hactive

end Rankings

theorem refresh_ok {fetchTemplate : Text → Option ObjectData}
    {templateIds : List Text} {order : RegistryState}
    (h : order.Perm (fetchRegistryState fetchTemplate templateIds)) :
    TemplateCache.refresh fetchTemplate templateIds order
      = .ok (refreshCache order) :=
  if_pos h

theorem ranks_of_refresh {fetchTemplate : Text → Option ObjectData}
    {templateIds : List Text} {order : RegistryState}
    {cache : TemplateCache}
    (h : TemplateCache.refresh fetchTemplate templateIds order = .ok cache) :
    order.Perm (fetchRegistryState fetchTemplate templateIds)
      ∧ Ranks order cache := by
  unfold TemplateCache.refresh at h
  split at h
  case isFalse => cases h
  case isTrue hperm =>
      cases h
      exact ⟨hperm, ranks_refresh ((hperm.map Prod.fst).nodup_iff.mpr
        (nodup_fetched fetchTemplate templateIds))⟩

theorem ranks_empty : Ranks [] TemplateCache.empty := by
  refine ⟨List.nodup_nil, fun _ => rfl, fun _ => rfl, ?_, ?_, ?_⟩
  · exact List.mergeSort_nil.symm
  · exact List.mergeSort_nil.symm
  · exact List.mergeSort_nil.symm

/-- Whatever the chain has answered and in whatever order: what is
selected is an active template, the best of its mode, or the creator's own
where there is one; and where nothing is, nothing is active. -/
theorem selection_right {cache : TemplateCache}
    (h : Machine.Reach selector cache) :
    (∀ mode id, cache.selectTemplate mode = some id → cache.Right mode id)
      ∧ ∀ mode, mode ≠ .default →
        (cache.selectTemplate mode = none ↔ cache.Idle) := by
  have hranks : ∃ order, Ranks order cache := by
    refine Machine.ReachVia.invariant (I := fun cache =>
      ∃ order, Ranks order cache) ⟨[], ranks_empty⟩ ?_ h
    rintro cache c cache' ⟨order, hI⟩ - hs
    cases c with
    | refresh fetchTemplate templateIds order' =>
        exact ⟨order', (ranks_of_refresh hs).2⟩
    | load templateId fetched =>
        cases hs
        exact ⟨order, hI.load templateId fetched⟩
  obtain ⟨order, hranks⟩ := hranks
  exact ⟨fun mode id => hranks.right, fun mode => hranks.select_eq_none⟩

/-- Two active templates, fetched in one order and cached in the other. -/
def twoActive : Text → Option ObjectData := fun id =>
  some { templateId := id, height := 17, prevBlockHash := [],
         coinbase1 := [], coinbase2 := [], merkleBranches := [],
         version := 0, nbits := 0, ntime := 0, isActive := true,
         owner := ['0'], shareCount := BitVec.ofNat 64 id.length }

def twoOrder : RegistryState :=
  [(['b', 'b'], ⟨['0'], 17, 2, 0, true⟩), (['a'], ⟨['0'], 17, 1, 0, true⟩)]

theorem selection_right_twoActive :
    ∃ cache, Machine.Reach selector cache
      ∧ cache.selectTemplate .byShares = some ['b', 'b']
      ∧ cache.Right .byShares ['b', 'b']
      ∧ ¬ cache.Idle := by
  have hperm : twoOrder.Perm
      (fetchRegistryState twoActive [['a'], ['b', 'b'], ['a']]) := by
    decide
  have hreach : Machine.Reach selector (refreshCache twoOrder) :=
    .step (.refresh twoActive [['a'], ['b', 'b'], ['a']] twoOrder) .init
      trivial (refresh_ok hperm)
  have hsel : (refreshCache twoOrder).selectTemplate .byShares
      = some ['b', 'b'] := by
    unfold TemplateCache.selectTemplate refreshCache
    dsimp only
    rw [Ranking.head?_ranked]
    decide
  obtain ⟨hright, hnone⟩ := selection_right hreach
  refine ⟨refreshCache twoOrder, hreach, hsel, hright _ _ hsel, ?_⟩
  intro hidle
  have hempty := (hnone .byShares (by simp)).mpr hidle
  rw [hsel] at hempty
  cases hempty

-- =============================================================== the chain

def bytesJson (bs : Bytes) : Json :=
  .array (bs.map fun b => .number (some (b.setWidth 64)))

def u64Json (n : U64) : Json := .string (Nat.toDigits 10 n.toNat)

def u32Json (n : U32) : Json := .number (some (n.setWidth 64))

/-- The fields of a template, in the order of the struct. -/
def templateFields : List Text :=
  ["id", "height", "prev_block_hash", "coinbase1", "coinbase2",
    "merkle_branches", "version", "nbits", "ntime", "owner",
    "created_at_ms", "round_id", "min_difficulty",
    "cached_network_difficulty"].map String.toList

/-- What the server relies on of a node's answer for a template: the fields
of its struct and no others, short numbers as numbers, long ones as text,
vectors as lists. -/
structure Renders (fields : Json) (t : Template) : Prop where
  only : ∀ key, key.toList ∉ templateFields → fields.get key = none
  height : fields.get "height" = some (u64Json t.height)
  prevBlockHash : fields.get "prev_block_hash"
    = some (bytesJson t.prevBlockHash)
  coinbase1 : fields.get "coinbase1" = some (bytesJson t.coinbase1)
  coinbase2 : fields.get "coinbase2" = some (bytesJson t.coinbase2)
  merkleBranches : fields.get "merkle_branches"
    = some (.array (t.merkleBranches.map bytesJson))
  version : fields.get "version" = some (u32Json t.version)
  nbits : fields.get "nbits" = some (u32Json t.nbits)
  ntime : fields.get "ntime" = some (u32Json t.ntime)

theorem bytesOf_bytesJson (bs : Bytes) : bytesOf (bytesJson bs) = bs := by
  unfold bytesOf bytesJson
  dsimp only [Json.asArray, Option.map, Option.getD]
  rw [List.filterMap_map, List.map_filterMap]
  have hbyte : ∀ b : BitVec 8, ((Json.asU64 ∘ fun b : BitVec 8 =>
      Json.number (some (b.setWidth 64))) b).map
        (fun n => n.setWidth 8) = some b := by
    intro b
    show some ((b.setWidth 64).setWidth 8) = some b
    rw [BitVec.setWidth_setWidth_of_le b (by decide), BitVec.setWidth_eq]
  simp only [hbyte, List.filterMap_some]

theorem parseBytes_of {fields : Json} {key : String} {bs : Bytes}
    (h : fields.get key = some (bytesJson bs)) :
    parseBytes fields key = bs := by
  rw [parseBytes, field, h]
  exact bytesOf_bytesJson bs

theorem parseU64_of {fields : Json} {key : String} {n : U64}
    (h : fields.get key = some (u64Json n)) : parseU64 fields key = n := by
  rw [parseU64, field, h]
  show (Keeper.parseU64 (Nat.toDigits 10 n.toNat)).getD 0 = n
  rw [Keeper.parseU64_toDigits]
  rfl

theorem parseU32_of {fields : Json} {key : String} {n : U32}
    (h : fields.get key = some (u32Json n)) : parseU32 fields key = n := by
  rw [parseU32, field, h]
  show (n.setWidth 64).setWidth 32 = n
  rw [BitVec.setWidth_setWidth_of_le n (by decide), BitVec.setWidth_eq]

/-- The server reads what the template holds, and that it is not active. -/
theorem parse_rendered {fields : Json} {t : Template}
    (h : Renders fields t) (templateId : Text) :
    (parseTemplateObject templateId fields).toTemplateObjectData
        = t.objectData templateId
      ∧ (parseTemplateObject templateId fields).isActive = false
      ∧ (parseTemplateObject templateId fields).shareCount = 0 := by
  have hactive : fields.get "is_active" = none :=
    h.only _ (by decide +kernel)
  have hshares : fields.get "total_shares" = none :=
    h.only _ (by decide +kernel)
  refine ⟨?_, ?_, ?_⟩
  · unfold parseTemplateObject Template.objectData
    dsimp only
    rw [parseU64_of h.height, parseBytes_of h.prevBlockHash,
      parseBytes_of h.coinbase1, parseBytes_of h.coinbase2,
      parseU32_of h.version, parseU32_of h.nbits, parseU32_of h.ntime, field,
      h.merkleBranches]
    congr 1
    show (t.merkleBranches.map bytesJson).map bytesOf = t.merkleBranches
    rw [List.map_map]
    have hid : bytesOf ∘ bytesJson = id := funext bytesOf_bytesJson
    rw [hid, List.map_id]
  · unfold parseTemplateObject field
    dsimp only
    rw [hactive]
    rfl
  · unfold parseTemplateObject parseU64 field
    dsimp only
    rw [hshares]
    rfl

/-- What a node answers, with an owner and times as they may be. -/
def renderedTemplate (templateId : Text) (t : Template) : Json :=
  .object [
    ("id".toList, .object [("id".toList, .string templateId)]),
    ("height".toList, u64Json t.height),
    ("prev_block_hash".toList, bytesJson t.prevBlockHash),
    ("coinbase1".toList, bytesJson t.coinbase1),
    ("coinbase2".toList, bytesJson t.coinbase2),
    ("merkle_branches".toList, .array (t.merkleBranches.map bytesJson)),
    ("version".toList, u32Json t.version),
    ("nbits".toList, u32Json t.nbits),
    ("ntime".toList, u32Json t.ntime),
    ("owner".toList, .string ('0' :: 'x' :: Hex.padded 64 0)),
    ("created_at_ms".toList, u64Json t.createdAtMs),
    ("round_id".toList, u64Json t.roundId),
    ("min_difficulty".toList, u64Json t.minDifficulty),
    ("cached_network_difficulty".toList, u64Json t.cachedNetworkDifficulty)]

theorem renders_renderedTemplate (templateId : Text) (t : Template) :
    Renders (renderedTemplate templateId t) t := by
  refine ⟨?_, rfl, rfl, rfl, rfl, rfl, rfl, rfl, rfl⟩
  intro key hkey
  rw [renderedTemplate, Json.get, List.lookup_eq_none_iff]
  intro p hp
  rw [bne_iff_ne]
  intro heq
  have hin : p.1 ∈ templateFields := List.mem_map_of_mem hp
  exact hkey (heq ▸ hin)

/-- A buyer's template, with one branch. -/
def buyersTemplate : Template where
  height := 125552
  prevBlockHash := List.replicate 32 0x11
  coinbase1 := [1, 2, 3]
  coinbase2 := [4, 5]
  merkleBranches := [List.replicate 32 0x22]
  version := 0x20000000
  nbits := 0x1a44b9f2
  ntime := 0x4dd7f5c7
  owner := 7
  createdAtMs := 0
  roundId := 1
  minDifficulty := 1
  cachedNetworkDifficulty := 1

/-- There is nothing to select, and nothing was selected. -/
structure World.Silent (w : World) : Prop where
  ranks : ∃ order, Ranks order w.server.cache
  idle : w.server.cache.Idle
  currentJob : w.server.currentJob = none
  jobs : w.server.jobs = []
  notified : w.server.notified = []

variable {content : Text → Template → Json} {H : HashFn}
  {mode : TemplateSelectionMode}

theorem fetched_inactive (hcontent : ∀ id t, Renders (content id t) t)
    {w : World} {reachable : Text → Bool} {id : Text} {tpl : ObjectData}
    (h : w.fetchTemplate content reachable id = some tpl) :
    tpl.isActive = false := by
  unfold World.fetchTemplate at h
  split at h
  case isFalse => cases h
  case isTrue =>
      obtain ⟨t, -, rfl⟩ := Option.map_eq_some_iff.mp h
      exact (parse_rendered (hcontent id t) id).2.1

theorem World.Silent.step (hcontent : ∀ id t, Renders (content id t) t)
    {w w' : World} {c : World.Event} (h : w.Silent)
    (hs : w.step content H mode c = .ok w') : w'.Silent := by
  obtain ⟨order, hranks⟩ := h.ranks
  cases c with
  | create templateId t =>
      unfold World.step at hs
      dsimp only at hs
      split at hs
      case isTrue => cases hs
      case isFalse =>
          cases hs
          exact ⟨⟨order, hranks⟩, h.idle, h.currentJob, h.jobs, h.notified⟩
  | refresh reachable templateIds order' =>
      unfold World.step at hs
      dsimp only at hs
      cases hcache : TemplateCache.refresh (w.fetchTemplate content reachable)
          templateIds order' with
      | error u =>
          rw [hcache] at hs
          cases hs
      | ok cache =>
          rw [hcache] at hs
          cases hs
          obtain ⟨hperm, hranks'⟩ := ranks_of_refresh hcache
          refine ⟨⟨order', hranks'⟩, ?_, h.currentJob, h.jobs, h.notified⟩
          intro id t ht
          obtain ⟨data, hin, hdata⟩ := hranks'.mem_of_template ht
          rw [isActive_of_info hdata]
          exact fetched_all (P := fun data => data.isActive = false)
            (fun _ _ htpl => fetched_inactive hcontent htpl)
            _ (hperm.mem_iff.mp hin)
  | tick reachable =>
      cases hs
      have hnone : (w.server.cache.selectTemplate mode).or
          (w.server.cache.selectTemplate .byStake) = none := by
        have hstake : w.server.cache.selectTemplate .byStake = none :=
          (hranks.select_eq_none (by simp)).mpr h.idle
        have hmode : w.server.cache.selectTemplate mode = none := by
          by_cases hdefault : mode = .default
          · rw [hdefault]
            rfl
          · exact (hranks.select_eq_none hdefault).mpr h.idle
        rw [hmode, hstake]
        rfl
      have hsame : w.server.tick H mode (w.fetchTemplate content reachable)
          = w.server := by
        unfold Server.tick
        rw [hnone]
      rw [hsame]
      exact h

/-- Whatever templates there are on chain, the pooled updater never has a
job: no template as it is stored is read as active. -/
theorem pooled_never_publishes
    (hcontent : ∀ id t, Renders (content id t) t) {w : World}
    (h : Machine.Reach (pooled content H mode) w) :
    w.server.currentJob = none ∧ w.server.jobs = []
      ∧ w.server.notified = []
      ∧ ∀ mode', w.server.cache.selectTemplate mode' = none := by
  have hsilent : w.Silent := by
    refine Machine.ReachVia.invariant (I := World.Silent) ?_ ?_ h
    · have hidle : TemplateCache.empty.Idle := by
        intro id t ht
        cases ht
      exact ⟨⟨[], ranks_empty⟩, hidle, rfl, rfl, rfl⟩
    · intro w c w' hI _ hs
      exact hI.step hcontent hs
  obtain ⟨order, hranks⟩ := hsilent.ranks
  refine ⟨hsilent.currentJob, hsilent.jobs, hsilent.notified, ?_⟩
  intro mode'
  by_cases hdefault : mode' = .default
  · rw [hdefault]
    rfl
  · exact (hranks.select_eq_none hdefault).mpr hsilent.idle

/-- The map may come in the order it was filled. -/
theorem step_refresh (w : World) (reachable : Text → Bool)
    (templateIds : List Text) :
    (pooled content H mode).step w (.refresh reachable templateIds
        (fetchRegistryState (w.fetchTemplate content reachable) templateIds))
      = .ok { w with
          server := { w.server with
            cache := refreshCache (fetchRegistryState
              (w.fetchTemplate content reachable) templateIds) } } := by
  unfold pooled World.step
  dsimp only
  rw [refresh_ok (List.Perm.refl _)]
  rfl

/-- With a template made, and nothing read. -/
def madeWorld : World where
  objects := Function.update (fun _ => none) ['a'] (some buyersTemplate)
  server := .init

/-- A template is made and read, and the updater goes by without a job. -/
theorem pooled_never_publishes_buyersTemplate :
    ∃ w, Machine.Reach (pooled renderedTemplate sha256 .byShares) w
      ∧ (w.objects ['a']).isSome ∧ (w.server.cache.templates ['a']).isSome
      ∧ w.server.notified = [] := by
  have hmade : Machine.Reach (pooled renderedTemplate sha256 .byShares)
      madeWorld :=
    .step (.create ['a'] buyersTemplate) .init trivial rfl
  have hstep : (pooled renderedTemplate sha256 .byShares).step madeWorld
      (.refresh (fun _ => true) [['a']] (fetchRegistryState
        (madeWorld.fetchTemplate renderedTemplate fun _ => true) [['a']]))
      = .ok _ :=
    step_refresh madeWorld (fun _ => true) [['a']]
  have hread := Machine.ReachVia.step _ hmade trivial hstep
  have hticked := hread.step (.tick fun _ => true) trivial rfl
  obtain ⟨-, -, hnotified, -⟩ :=
    pooled_never_publishes renders_renderedTemplate hticked
  exact ⟨_, hticked, rfl, by decide +kernel, hnotified⟩

end M1n3Protocol.Pooled
