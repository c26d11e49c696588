import MoneyLaundering.ScatterGather.Q4Joiner

/-!
# Splitting hot intermediaries

`q4_sum` spreads the endpoints of an intermediate account over a grid of blocks and `q4_joiner`
multiplies the two sides of each block. An incoming endpoint goes to all blocks of its row and an
outgoing endpoint to all blocks of its column, so that a source and a target meet in one block. Here
the size of each grid is any: the plan that `_block_plan` makes is one of them.

A list of records is compared with another through all weights: lists that no weight tells apart are
permutations of each other.
-/

namespace MoneyLaundering

open Q4Sum

/-! ## A flush under any plan -/

section flush
variable (cfg : Q4Config) (plan : Q4AccountId → Nat × Nat)

/-- The block edges of an intermediate account, for a plan of the grids. -/
def plannedBlockEdges (s : Q4SumClient) (m : Q4AccountId) : List Q4BlockJoinEdge :=
  if (s.incoming.getD m ∅).entries = [] ∨ (s.outgoing.getD m ∅).entries = [] then []
  else
    incomingEdges cfg m (s.incoming.getD m ∅) (plan m).1 (plan m).2 ++
      outgoingEdges cfg m (s.outgoing.getD m ∅) (plan m).1 (plan m).2

/-- All the block edges. -/
def plannedEdges (s : Q4SumClient) : List Q4BlockJoinEdge :=
  (sharedKeys cfg s.incoming s.outgoing).flatMap (plannedBlockEdges cfg plan s)

/-- The block edges by joiner. -/
def plannedByPartition (s : Q4SumClient) : Dict Nat (List Q4BlockJoinEdge) :=
  groupInto (fun e => blockPartition cfg (blockOf e)) ∅ (plannedEdges cfg plan s)

/-- `_build_flush_outputs` of `q4_sum`, for a plan of the grids. -/
def plannedOutputs (id : Nat) (s : Q4SumClient) : List (Output Q4BlockJoinEdge) :=
  dataOutputs cfg.sumBatchMaxEdges (plannedByPartition cfg plan s)
    (plannedByPartition cfg plan s).keys ++
    eofOutputs id cfg.joinerAmount fun partition =>
      ((plannedByPartition cfg plan s).getD partition []).length

/-- The worker's own flush is the one for its own plan. -/
theorem plannedOutputs_planOf (id : Nat) (s : Q4SumClient) :
    plannedOutputs cfg (planOf s) id s = buildFlushOutputs cfg id s := rfl

end flush

/-! ## Contributions -/

/-- A source, a target and the number of paths between them through one intermediate account. -/
abbrev Contribution := Q4AccountId × Q4AccountId × Nat

/-- The products of the counts of two sides. -/
def products (incoming outgoing : Dict Q4AccountId Nat) : List Contribution :=
  incoming.entries.flatMap fun source => outgoing.entries.map fun target =>
    (source.1, target.1, source.2 * target.2)

/-- The products of all blocks of a joiner. -/
def blockProducts (cfg : Q4Config) (s : Q4JoinerClient) : List Contribution :=
  (sharedKeys cfg s.incoming s.outgoing).flatMap fun block =>
    products (s.incoming.getD block ∅) (s.outgoing.getD block ∅)

/-- The products without a split: all incoming with all outgoing endpoints of each account. -/
def crossProduct (cfg : Q4Config) (s : Q4SumClient) : List Contribution :=
  (sharedKeys cfg s.incoming s.outgoing).flatMap fun m =>
    products (s.incoming.getD m ∅) (s.outgoing.getD m ∅)

/-- What the joiner emits for a product: nothing from an account to itself and nothing without a
path, and the paths cut at the threshold. -/
def emission (c : Contribution) : List Q4PairPaths :=
  if c.1 = c.2.1 then []
  else if c.2.2 = 0 then []
  else [{ source := c.1, target := c.2.1, pathCount := min c.2.2 q4QualifyThreshold }]

/-- The joiner's own flush emits its products. -/
theorem flushPairs_eq_emission (cfg : Q4Config) (s : Q4JoinerClient) :
    Q4Joiner.flushPairs cfg s = (blockProducts cfg s).flatMap emission := by
  rw [Q4Joiner.flushPairs, blockProducts, List.flatMap_assoc]
  refine List.flatMap_congr fun block _ => ?_
  rw [Q4Joiner.blockPairs, products, List.flatMap_assoc]
  refine List.flatMap_congr fun source _ => ?_
  rw [List.flatMap_map]
  rfl

theorem tally_products (w : Contribution → Nat) (incoming outgoing : Dict Q4AccountId Nat) :
    tally w (products incoming outgoing) =
      tally (fun source => tally (fun target => w (source.1, target.1, source.2 * target.2))
        outgoing.entries) incoming.entries := by
  rw [products, tally_flatMap]
  exact tally_congr fun source _ => by rw [tally_map]

/-! ## The edges of a block -/

/-- The weight of an edge as an entry of one side of a block. -/
def entryWeight (role : Q4EdgeRole) (block : Block) (w : Q4AccountId × Nat → Nat)
    (e : Q4BlockJoinEdge) : Nat :=
  if e.role = role ∧ blockOf e = block then w (e.endpoint, e.count) else 0

section edges
variable {cfg : Q4Config} {plan : Q4AccountId → Nat × Nat} {s : Q4SumClient}
  (w : Q4AccountId × Nat → Nat) (block : Block)

/-- A block gets the entries of its row. -/
theorem tally_entry_incomingEdges (m : Q4AccountId) (counts : Dict Q4AccountId Nat)
    (aBuckets bBuckets : Nat) :
    tally (entryWeight .incoming block w) (incomingEdges cfg m counts aBuckets bBuckets) =
      if m = block.1 ∧ block.2.2 < bBuckets then
        tally (fun e => if accountBucket cfg e.1 aBuckets = block.2.1 then w e
          else 0) counts.entries
      else 0 := by
  have hentry : ∀ e ∈ counts.entries, tally (entryWeight .incoming block w)
      ((List.range bBuckets).map fun bBucket =>
        { role := .incoming, intermediate := m, endpoint := e.1
          aBucket := accountBucket cfg e.1 aBuckets, bBucket, count := e.2 }) =
      if (m = block.1 ∧ accountBucket cfg e.1 aBuckets = block.2.1) ∧
        block.2.2 < bBuckets then w e else 0 := by
    intro e _
    rw [tally_map, ← tally_range]
    refine tally_congr fun b _ => ?_
    simp [entryWeight, blockOf, Prod.ext_iff, and_assoc]
  rw [incomingEdges, tally_flatMap, tally_congr hentry]
  by_cases h : m = block.1 ∧ block.2.2 < bBuckets
  · rw [if_pos h]
    simp [h.1, h.2]
  · rw [if_neg h]
    exact tally_eq_zero fun e _ => if_neg fun he => h ⟨he.1.1, he.2⟩

/-- A block gets the entries of its column. -/
theorem tally_entry_outgoingEdges (m : Q4AccountId) (counts : Dict Q4AccountId Nat)
    (aBuckets bBuckets : Nat) :
    tally (entryWeight .outgoing block w) (outgoingEdges cfg m counts aBuckets bBuckets) =
      if m = block.1 ∧ block.2.1 < aBuckets then
        tally (fun e => if accountBucket cfg e.1 bBuckets = block.2.2 then w e
          else 0) counts.entries
      else 0 := by
  have hentry : ∀ e ∈ counts.entries, tally (entryWeight .outgoing block w)
      ((List.range aBuckets).map fun aBucket =>
        { role := .outgoing, intermediate := m, endpoint := e.1
          aBucket, bBucket := accountBucket cfg e.1 bBuckets, count := e.2 }) =
      if (m = block.1 ∧ accountBucket cfg e.1 bBuckets = block.2.2) ∧
        block.2.1 < aBuckets then w e else 0 := by
    intro e _
    rw [tally_map, ← tally_range]
    refine tally_congr fun a _ => ?_
    simp [entryWeight, blockOf, Prod.ext_iff, and_comm, and_left_comm]
  rw [outgoingEdges, tally_flatMap, tally_congr hentry]
  by_cases h : m = block.1 ∧ block.2.1 < aBuckets
  · rw [if_pos h]
    simp [h.1, h.2]
  · rw [if_neg h]
    exact tally_eq_zero fun e _ => if_neg fun he => h ⟨he.1.1, he.2⟩

/-- The edges of a block come from its intermediate account. -/
theorem intermediate_of_mem {m : Q4AccountId} {e : Q4BlockJoinEdge}
    (h : e ∈ plannedBlockEdges cfg plan s m) : e.intermediate = m := by
  unfold plannedBlockEdges at h
  split at h
  · cases h
  · rcases List.mem_append.mp h with h | h
    all_goals
      obtain ⟨x, -, h⟩ := List.mem_flatMap.mp h
      obtain ⟨b, -, rfl⟩ := List.mem_map.mp h
      rfl

theorem tally_entry_plannedEdges (role : Q4EdgeRole) :
    tally (entryWeight role block w) (plannedEdges cfg plan s) =
      tally (entryWeight role block w) (plannedBlockEdges cfg plan s block.1) := by
  rw [plannedEdges, tally_flatMap]
  refine tally_eq_single (nodup_sharedKeys ..) (fun m _ hm => ?_) fun hm => ?_
  · refine tally_eq_zero fun e he => if_neg fun h => hm ?_
    rw [← h.2, blockOf, intermediate_of_mem he]
  · have hna : ¬ Active s block.1 := fun h => hm h.mem_sharedKeys
    rw [plannedBlockEdges, if_pos (not_not.mp hna)]
    rfl

/-- What a block gets of the incoming side. -/
theorem tally_entry_incoming :
    tally (entryWeight .incoming block w) (plannedEdges cfg plan s) =
      if Active s block.1 ∧ block.2.2 < (plan block.1).2 then
        tally (fun e => if accountBucket cfg e.1 (plan block.1).1 = block.2.1 then w e else 0)
          (s.incoming.getD block.1 ∅).entries
      else 0 := by
  rw [tally_entry_plannedEdges, plannedBlockEdges]
  by_cases ha : Active s block.1
  · rw [if_neg ha, tally_append, tally_entry_incomingEdges, tally_eq_zero (l := outgoingEdges ..)]
    · simp [ha]
    · intro e he
      refine if_neg fun h => ?_
      rw [role_of_mem_outgoingEdges he] at h
      cases h.1
  · rw [if_pos (not_not.mp ha), if_neg fun h => ha h.1]
    rfl

/-- What a block gets of the outgoing side. -/
theorem tally_entry_outgoing :
    tally (entryWeight .outgoing block w) (plannedEdges cfg plan s) =
      if Active s block.1 ∧ block.2.1 < (plan block.1).1 then
        tally (fun e => if accountBucket cfg e.1 (plan block.1).2 = block.2.2 then w e else 0)
          (s.outgoing.getD block.1 ∅).entries
      else 0 := by
  rw [tally_entry_plannedEdges, plannedBlockEdges]
  by_cases ha : Active s block.1
  · rw [if_neg ha, tally_append, tally_entry_outgoingEdges, tally_eq_zero (l := incomingEdges ..)]
    · simp [ha]
    · intro e he
      refine if_neg fun h => ?_
      rw [role_of_mem_incomingEdges he] at h
      cases h.1
  · rw [if_pos (not_not.mp ha), if_neg fun h => ha h.1]
    rfl

end edges

/-! ## Each edge once -/

/-- What tells the edges of a flush apart. -/
def edgeKey (e : Q4BlockJoinEdge) : Q4EdgeRole × Block × Q4AccountId :=
  (e.role, blockOf e, e.endpoint)

section once
variable {cfg : Q4Config} {plan : Q4AccountId → Nat × Nat} {s : Q4SumClient}

/-- Edges made from the entries of a dictionary, several for each entry, with the bucket that tells
them apart. -/
theorem nodup_edgeKeys_flatMap {counts : Dict Q4AccountId Nat} {n : Nat}
    {edge : Q4AccountId × Nat → Nat → Q4BlockJoinEdge}
    (hendpoint : ∀ e b, (edge e b).endpoint = e.1)
    (hbucket : ∀ e b b', blockOf (edge e b) = blockOf (edge e b') → b = b') :
    ((counts.entries.flatMap fun e => (List.range n).map (edge e)).map edgeKey).Nodup := by
  rw [List.map_flatMap, List.nodup_flatMap]
  constructor
  · intro e _
    rw [List.map_map]
    refine List.nodup_range.map fun b b' h => hbucket e b b' ?_
    exact congrArg (fun key => key.2.1) h
  · have hentries : counts.entries.Pairwise fun e e' => e.1 ≠ e'.1 :=
      List.pairwise_map.mp counts.nodup
    refine hentries.imp fun {e e'} hne key hk hk' => hne ?_
    obtain ⟨_, hb, rfl⟩ := List.mem_map.mp hk
    obtain ⟨b, -, rfl⟩ := List.mem_map.mp hb
    obtain ⟨_, hb', he⟩ := List.mem_map.mp hk'
    obtain ⟨b', -, rfl⟩ := List.mem_map.mp hb'
    have hend : (edge e' b').endpoint = (edge e b).endpoint := congrArg (fun key => key.2.2) he
    rw [hendpoint, hendpoint] at hend
    exact hend.symm

theorem nodup_edgeKeys_plannedBlockEdges (m : Q4AccountId) :
    ((plannedBlockEdges cfg plan s m).map edgeKey).Nodup := by
  unfold plannedBlockEdges
  split
  · exact List.nodup_nil
  · rw [List.map_append]
    refine List.Nodup.append ?_ ?_ fun key hk hk' => ?_
    · exact nodup_edgeKeys_flatMap (fun _ _ => rfl) fun e b b' h =>
        congrArg (fun block => block.2.2) h
    · exact nodup_edgeKeys_flatMap (fun _ _ => rfl) fun e a a' h =>
        congrArg (fun block => block.2.1) h
    · obtain ⟨e, he, rfl⟩ := List.mem_map.mp hk
      obtain ⟨e', he', hkey⟩ := List.mem_map.mp hk'
      have hrole : e'.role = e.role := congrArg Prod.fst hkey
      rw [role_of_mem_incomingEdges he, role_of_mem_outgoingEdges he'] at hrole
      cases hrole

theorem nodup_edgeKeys : ((plannedEdges cfg plan s).map edgeKey).Nodup := by
  rw [plannedEdges, List.map_flatMap, List.nodup_flatMap]
  refine ⟨fun m _ => nodup_edgeKeys_plannedBlockEdges m, (nodup_sharedKeys ..).imp
    fun {m m'} hne key hk hk' => ?_⟩
  obtain ⟨e, he, rfl⟩ := List.mem_map.mp hk
  obtain ⟨e', he', hkey⟩ := List.mem_map.mp hk'
  have hm : e'.intermediate = e.intermediate := congrArg (fun key => key.2.1.1) hkey
  rw [intermediate_of_mem he, intermediate_of_mem he'] at hm
  exact hne hm.symm

end once

/-! ## The blocks of a joiner -/

/-- Only the edges matter, not how they are batched. -/
theorem side_afterBatches (cfg : Q4Config) (id : Nat) (bs : List (List Q4BlockJoinEdge))
    (role : Q4EdgeRole) :
    Q4Joiner.side ((Q4Joiner.stage cfg id).afterBatches bs) role =
      Q4Joiner.side (bs.flatten.foldl Q4Joiner.applyEdge {}) role := by
  have hdata : ∀ (s t : Q4JoinerClient) (edges : List Q4BlockJoinEdge),
      s.incoming = t.incoming → s.outgoing = t.outgoing →
      (Q4Joiner.applyData s edges).incoming = (edges.foldl Q4Joiner.applyEdge t).incoming ∧
      (Q4Joiner.applyData s edges).outgoing = (edges.foldl Q4Joiner.applyEdge t).outgoing := by
    intro s t edges
    change _ → _ → (edges.foldl Q4Joiner.applyEdge s).incoming = _ ∧
      (edges.foldl Q4Joiner.applyEdge s).outgoing = _
    induction edges generalizing s t with
    | nil => exact fun hi ho => ⟨hi, ho⟩
    | cons e edges ih =>
      intro hi ho
      refine ih _ _ ?_ ?_
      · unfold Q4Joiner.applyEdge
        cases e.role <;> simp [hi]
      · unfold Q4Joiner.applyEdge
        cases e.role <;> simp [ho]
  have key : ((Q4Joiner.stage cfg id).afterBatches bs).incoming =
        (bs.flatten.foldl Q4Joiner.applyEdge {}).incoming ∧
      ((Q4Joiner.stage cfg id).afterBatches bs).outgoing =
        (bs.flatten.foldl Q4Joiner.applyEdge {}).outgoing := by
    induction bs using List.reverseRecOn with
    | nil => exact ⟨rfl, rfl⟩
    | append_singleton bs b ih =>
      rw [Accumulator.afterBatches_concat, List.flatten_append, List.foldl_append,
        List.flatten_singleton]
      exact hdata _ _ b ih.1 ih.2
  cases role with
  | incoming => exact key.1
  | outgoing => exact key.2

/-- A first count of an endpoint is a new entry. -/
theorem entries_addCount_of_new {d : Dict Block (Dict Q4AccountId Nat)} {block : Block}
    {x : Q4AccountId} (hnew : x ∉ (d.getD block ∅).entries.map Prod.fst) (n : Nat) :
    ((addCount d block x n).getD block ∅).entries = (d.getD block ∅).entries ++ [(x, n)] := by
  have hzero : (d.getD block ∅).getD x 0 = 0 := Dict.getD_of_not_mem_keys hnew 0
  rw [addCount, Dict.getD_set, if_pos rfl, hzero, Nat.zero_add]
  exact Dict.put_append_of_not_mem hnew

theorem getD_addCount_of_ne {d : Dict Block (Dict Q4AccountId Nat)} {block block' : Block}
    (h : block ≠ block')
    (x : Q4AccountId) (n : Nat) : (addCount d block x n).getD block' ∅ = d.getD block' ∅ := by
  rw [addCount, Dict.getD_set, if_neg h]

/-- The counts of one side after an edge. -/
theorem side_applyEdge (s : Q4JoinerClient) (e : Q4BlockJoinEdge) (role : Q4EdgeRole) :
    Q4Joiner.side (Q4Joiner.applyEdge s e) role =
      if e.role = role then addCount (Q4Joiner.side s role) (blockOf e) e.endpoint e.count
      else Q4Joiner.side s role := by
  unfold Q4Joiner.applyEdge
  cases he : e.role <;> cases role <;> rfl

/-- Edges that are all different become the entries of their blocks. -/
theorem entries_foldl_applyEdge {edges : List Q4BlockJoinEdge} (hn : (edges.map edgeKey).Nodup)
    (role : Q4EdgeRole) (block : Block) :
    ((Q4Joiner.side (edges.foldl Q4Joiner.applyEdge {}) role).getD block ∅).entries =
      (edges.filter fun e => e.role = role ∧ blockOf e = block).map fun e =>
      (e.endpoint, e.count) := by
  induction edges using List.reverseRecOn with
  | nil => cases role <;> rfl
  | append_singleton edges e ih =>
    rw [List.map_append, List.nodup_append] at hn
    obtain ⟨hn, -, hnew⟩ := hn
    have ih := ih hn
    rw [List.foldl_append, List.filter_append, List.map_append, ← ih, List.foldl_cons,
      List.foldl_nil, side_applyEdge]
    by_cases hrole : e.role = role
    · rw [if_pos hrole]
      by_cases hblock : blockOf e = block
      · have hfresh : e.endpoint ∉ ((Q4Joiner.side (edges.foldl Q4Joiner.applyEdge {}) role).getD
            (blockOf e) ∅).entries.map Prod.fst := by
          rw [hblock, ih, List.map_map]
          intro hmem
          obtain ⟨e', he', hend⟩ := List.mem_map.mp hmem
          obtain ⟨he', hsame⟩ := List.mem_filter.mp he'
          have hsame := of_decide_eq_true hsame
          refine hnew (edgeKey e') (List.mem_map_of_mem he') (edgeKey e) (by simp) ?_
          exact Prod.ext (hsame.1.trans hrole.symm) (Prod.ext (hsame.2.trans hblock.symm) hend)
        rw [← hblock, entries_addCount_of_new hfresh]
        simp [hrole]
      · rw [getD_addCount_of_ne hblock]
        simp [hblock]
    · rw [if_neg hrole]
      simp [hrole]

/-- One side of a block, weighed through the edges. -/
theorem tally_side {edges : List Q4BlockJoinEdge} (hn : (edges.map edgeKey).Nodup)
    (role : Q4EdgeRole) (block : Block) (w : Q4AccountId × Nat → Nat) :
    tally w ((Q4Joiner.side (edges.foldl Q4Joiner.applyEdge {}) role).getD block ∅).entries =
      tally (entryWeight role block w) edges := by
  rw [entries_foldl_applyEdge hn, tally_map, tally_filter]
  refine tally_congr fun e _ => ?_
  simp [entryWeight]

/-- The products of a block, weighed through the edges it gets. -/
def blockValue (w : Contribution → Nat) (edges : List Q4BlockJoinEdge) (block : Block) : Nat :=
  tally (entryWeight .incoming block fun source =>
    tally (entryWeight .outgoing block fun target =>
      w (source.1, target.1, source.2 * target.2)) edges) edges

theorem tally_blockProducts (cfg : Q4Config) {edges : List Q4BlockJoinEdge}
    (hn : (edges.map edgeKey).Nodup)
    {j : Q4JoinerClient} (hin : j.incoming = (edges.foldl Q4Joiner.applyEdge {}).incoming)
    (hout : j.outgoing = (edges.foldl Q4Joiner.applyEdge {}).outgoing) (w : Contribution → Nat) :
    tally w (blockProducts cfg j) =
      tally (blockValue w edges) (sharedKeys cfg j.incoming j.outgoing) ∧
    ∀ block, blockValue w edges block ≠ 0 → block ∈ sharedKeys cfg j.incoming j.outgoing := by
  have hvalue : ∀ block, tally w (products (j.incoming.getD block ∅) (j.outgoing.getD block ∅)) =
      blockValue w edges block := by
    intro block
    rw [tally_products, blockValue, hin, hout]
    refine (tally_side hn .incoming block _).trans (tally_congr fun e _ => ?_)
    unfold entryWeight
    split
    · exact tally_side hn .outgoing block _
    · rfl
  constructor
  · rw [blockProducts, tally_flatMap]
    exact tally_congr fun block _ => hvalue block
  · -- a block with a product has entries on both sides
    intro block hne
    rw [← hvalue block, tally_products] at hne
    refine mem_sharedKeys.mpr ⟨?_, ?_⟩ <;> by_contra hk
    · rw [Dict.getD_of_not_mem_keys hk] at hne
      exact hne rfl
    · rw [Dict.getD_of_not_mem_keys hk] at hne
      exact hne (tally_eq_zero fun _ _ => rfl)

/-! ## The grid -/

section grid
variable {cfg : Q4Config} {plan : Q4AccountId → Nat × Nat} {s : Q4SumClient}

/-- All the blocks of a plan. -/
def gridBlocks (cfg : Q4Config) (plan : Q4AccountId → Nat × Nat) (s : Q4SumClient) : List Block :=
  (sharedKeys cfg s.incoming s.outgoing).flatMap fun m =>
    (List.range (plan m).1).flatMap fun a => (List.range (plan m).2).map fun b => (m, a, b)

theorem mem_gridBlocks {block : Block} :
    block ∈ gridBlocks cfg plan s ↔ block.1 ∈ sharedKeys cfg s.incoming s.outgoing ∧
      block.2.1 < (plan block.1).1 ∧ block.2.2 < (plan block.1).2 := by
  obtain ⟨m, a, b⟩ := block
  simp only [gridBlocks, List.mem_flatMap, List.mem_map, List.mem_range, Prod.mk.injEq]
  constructor
  · rintro ⟨m', hm, a', ha, b', hb, rfl, rfl, rfl⟩
    exact ⟨hm, ha, hb⟩
  · rintro ⟨hm, ha, hb⟩
    exact ⟨m, hm, a, ha, b, hb, rfl, rfl, rfl⟩

theorem nodup_gridBlocks : (gridBlocks cfg plan s).Nodup := by
  rw [gridBlocks, List.nodup_flatMap]
  constructor
  · intro m _
    rw [List.nodup_flatMap]
    constructor
    · intro a _
      exact List.nodup_range.map fun b b' h => congrArg (fun block : Block => block.2.2) h
    · refine List.nodup_range.imp fun {a a'} hne block hb hb' => hne ?_
      obtain ⟨b, -, rfl⟩ := List.mem_map.mp hb
      obtain ⟨b', -, he⟩ := List.mem_map.mp hb'
      exact (congrArg (fun block : Block => block.2.1) he).symm
  · refine (nodup_sharedKeys ..).imp fun {m m'} hne block hb hb' => hne ?_
    obtain ⟨a, -, hb⟩ := List.mem_flatMap.mp hb
    obtain ⟨b, -, rfl⟩ := List.mem_map.mp hb
    obtain ⟨a', -, hb'⟩ := List.mem_flatMap.mp hb'
    obtain ⟨b', -, he⟩ := List.mem_map.mp hb'
    exact (congrArg (fun block : Block => block.1) he).symm

/-- The value of a block of the grid: the sources of its row with the targets of its column. -/
theorem blockValue_plannedEdges (w : Contribution → Nat) (block : Block) :
    blockValue w (plannedEdges cfg plan s) block =
      if Active s block.1 ∧ block.2.1 < (plan block.1).1 ∧ block.2.2 < (plan block.1).2 then
        tally (fun source => if accountBucket cfg source.1 (plan block.1).1 = block.2.1 then
          tally (fun target => if accountBucket cfg target.1 (plan block.1).2 = block.2.2 then
            w (source.1, target.1, source.2 * target.2) else 0) (s.outgoing.getD block.1 ∅).entries
              else 0)
          (s.incoming.getD block.1 ∅).entries
      else 0 := by
  rw [blockValue, tally_entry_incoming]
  simp only [tally_entry_outgoing]
  by_cases ha : Active s block.1
  · by_cases hrow : block.2.1 < (plan block.1).1
    · simp [ha, hrow]
    · simp only [ha, hrow, false_and, and_false, if_false, true_and, ite_self]
      split
      · exact tally_eq_zero fun _ _ => rfl
      · rfl
  · simp [ha]

/-- Every pair of endpoints of an account meets in one block of its grid. -/
theorem tally_grid (hplan : ∀ m, 1 ≤ (plan m).1 ∧ 1 ≤ (plan m).2) (w : Contribution → Nat)
    (m : Q4AccountId) :
    tally (fun a => tally (fun b => blockValue w (plannedEdges cfg plan s) (m, a, b))
        (List.range (plan m).2)) (List.range (plan m).1) =
      tally w (products (s.incoming.getD m ∅) (s.outgoing.getD m ∅)) := by
  rw [tally_products]
  by_cases hact : Active s m
  · have hrow : ∀ source : Q4AccountId × Nat, accountBucket cfg source.1 (plan m).1 < (plan m).1 :=
      fun source => cfg.partition_lt _ _ (hplan m).1
    have hcolumn : ∀ target : Q4AccountId × Nat,
        accountBucket cfg target.1 (plan m).2 < (plan m).2 :=
      fun target => cfg.partition_lt _ _ (hplan m).2
    rw [← tally_buckets (fun source _ => hrow source) fun source a =>
      tally (fun target => w (source.1, target.1, source.2 * target.2))
        (s.outgoing.getD m ∅).entries]
    refine tally_congr fun a ha => ?_
    have ha := List.mem_range.mp ha
    have hvalue : ∀ b ∈ List.range (plan m).2, blockValue w (plannedEdges cfg plan s) (m, a, b) =
        tally (fun source => if accountBucket cfg source.1 (plan m).1 = a then
          tally (fun target => if accountBucket cfg target.1 (plan m).2 = b then
            w (source.1, target.1, source.2 * target.2) else 0) (s.outgoing.getD m ∅).entries
              else 0)
          (s.incoming.getD m ∅).entries := by
      intro b hb
      rw [blockValue_plannedEdges, if_pos ⟨hact, ha, List.mem_range.mp hb⟩]
    rw [tally_congr hvalue, tally_comm]
    refine tally_congr fun source _ => ?_
    by_cases hs : accountBucket cfg source.1 (plan m).1 = a
    · simp only [hs, if_true]
      exact tally_buckets (fun target _ => hcolumn target) fun target _ =>
        w (source.1, target.1, source.2 * target.2)
    · simp only [hs, if_false]
      exact tally_eq_zero fun _ _ => rfl
  · have hvalue : ∀ a b, blockValue w (plannedEdges cfg plan s) (m, a, b) = 0 := by
      intro a b
      rw [blockValue_plannedEdges, if_neg fun h => hact h.1]
    simp only [hvalue]
    rw [tally_eq_zero fun _ _ => tally_eq_zero fun _ _ => rfl]
    rcases not_not.mp hact with hempty | hempty
    · rw [hempty]
      rfl
    · rw [hempty]
      exact (tally_eq_zero fun _ _ => rfl).symm

theorem tally_gridBlocks (hplan : ∀ m, 1 ≤ (plan m).1 ∧ 1 ≤ (plan m).2) (w : Contribution → Nat) :
    tally (blockValue w (plannedEdges cfg plan s)) (gridBlocks cfg plan s) =
      tally w (crossProduct cfg s) := by
  rw [gridBlocks, crossProduct, tally_flatMap, tally_flatMap]
  refine tally_congr fun m _ => ?_
  rw [← tally_grid hplan, tally_flatMap]
  exact tally_congr fun a _ => by rw [tally_map]

end grid

/-! ## All joiners -/

section shards
variable {cfg : Q4Config} {plan : Q4AccountId → Nat × Nat} {s : Q4SumClient}

/-- A joiner gets the edges of its blocks. -/
theorem content_plannedOutputs (id shard : Nat) :
    Body.content (toShard shard (plannedOutputs cfg plan id s)) =
      (plannedEdges cfg plan s).filter fun e => blockPartition cfg (blockOf e) = shard := by
  rw [plannedOutputs, toShard_append, Body.content_append, content_eofOutputs, List.append_nil,
    content_dataOutputs cfg.sumBatch_pos (List.Perm.refl _), plannedByPartition, getD_groupInto]
  rfl

/-- A joiner gets its edges in batches and then an `EOF` with their number. -/
theorem toShard_plannedOutputs (id : Nat) {shard : Nat} (h : shard < cfg.joinerAmount) :
    ∃ batches : List (List Q4BlockJoinEdge), toShard shard (plannedOutputs cfg plan id s) =
      batches.map .data ++ [.eof { senderId := id, expectedTotal := batches.flatten.length }] := by
  obtain ⟨batches, hbatches⟩ :=
    (allData_dataOutputs cfg.sumBatchMaxEdges (plannedByPartition cfg plan s)
    (plannedByPartition cfg plan s).keys).toShard shard
  have htotal : (plannedByPartition cfg plan s).getD shard [] = batches.flatten := by
    rw [← Body.content_data, ← hbatches]
    exact (content_dataOutputs cfg.sumBatch_pos (List.Perm.refl _) shard).symm
  refine ⟨batches, ?_⟩
  rw [plannedOutputs, toShard_append, hbatches, toShard_eofOutputs h, htotal]

/-- A block is known to its own joiner only. -/
theorem tally_entry_shard {edges : List Q4BlockJoinEdge} {id shard : Nat}
    (hp : edges.Perm (Body.content (toShard shard (plannedOutputs cfg plan id s))))
    (role : Q4EdgeRole) (block : Block) (w : Q4AccountId × Nat → Nat) :
    tally (entryWeight role block w) edges =
      if blockPartition cfg block = shard then tally (entryWeight role block w)
        (plannedEdges cfg plan s)
      else 0 := by
  rw [tally_perm hp, content_plannedOutputs, tally_filter]
  by_cases hb : blockPartition cfg block = shard
  · rw [if_pos hb]
    refine tally_congr fun e _ => ?_
    by_cases he : blockOf e = block
    · simp [he, hb]
    · simp [entryWeight, he]
  · rw [if_neg hb]
    refine tally_eq_zero fun e _ => ?_
    by_cases he : blockOf e = block
    · simp [he, hb]
    · simp [entryWeight, he]

theorem blockValue_shard {edges : List Q4BlockJoinEdge} {id shard : Nat}
    (hp : edges.Perm (Body.content (toShard shard (plannedOutputs cfg plan id s))))
    (w : Contribution → Nat) (block : Block) :
    blockValue w edges block =
      if blockPartition cfg block = shard then blockValue w (plannedEdges cfg plan s) block
        else 0 := by
  rw [blockValue, tally_entry_shard hp]
  by_cases hb : blockPartition cfg block = shard
  · simp only [if_pos hb, tally_entry_shard hp]
    rfl
  · rw [if_neg hb, if_neg hb]

/-- The products of a joiner are those of the blocks of the grid that are its own. -/
theorem tally_shard {bs : List (List Q4BlockJoinEdge)} {id shard : Nat}
    (hp : bs.flatten.Perm (Body.content (toShard shard (plannedOutputs cfg plan id s))))
    (w : Contribution → Nat) :
    tally w (blockProducts cfg ((Q4Joiner.stage cfg shard).afterBatches bs)) =
      tally (fun block => if blockPartition cfg block = shard then
        blockValue w (plannedEdges cfg plan s) block else 0) (gridBlocks cfg plan s) := by
  have hn : (bs.flatten.map edgeKey).Nodup := by
    rw [content_plannedOutputs] at hp
    exact (hp.map edgeKey).nodup_iff.mpr (nodup_edgeKeys.sublist (List.filter_sublist.map _))
  obtain ⟨htally, hshared⟩ := tally_blockProducts cfg hn
    (side_afterBatches cfg shard bs .incoming) (side_afterBatches cfg shard bs .outgoing) w
  rw [htally, tally_congr fun block _ => blockValue_shard hp w block]
  simp only [blockValue_shard hp w] at hshared
  refine tally_eq_of_support (nodup_sharedKeys ..) nodup_gridBlocks (fun block _ hne => ?_)
    fun block _ hne => hshared block hne
  -- a block with a value lies in the grid of an account that has endpoints on both sides
  split at hne
  · rw [blockValue_plannedEdges] at hne
    split at hne
    · next h => exact mem_gridBlocks.mpr ⟨h.1.mem_sharedKeys, h.2⟩
    · exact absurd rfl hne
  · exact absurd rfl hne

/-- **Splitting preserves the join.** Whatever the counts of the intermediate accounts, the sizes of
their grids, the buckets and the joiners of the blocks, and however the edges of each joiner are
ordered and batched: the products of all blocks of all joiners are the products of the incoming with
the outgoing endpoints of each account, each once; so the joiners emit what they would emit without
a split; and every joiner is told the number of edges that it is sent. -/
theorem splitting_preserves_join (cfg : Q4Config) (plan : Q4AccountId → Nat × Nat)
    (hplan : ∀ m, 1 ≤ (plan m).1 ∧ 1 ≤ (plan m).2) (id : Nat) (s : Q4SumClient)
    (bs : Nat → List (List Q4BlockJoinEdge))
    (hbs : ∀ shard < cfg.joinerAmount,
      (bs shard).flatten.Perm (Body.content (toShard shard (plannedOutputs cfg plan id s)))) :
    ((List.range cfg.joinerAmount).flatMap fun shard =>
      blockProducts cfg ((Q4Joiner.stage cfg shard).afterBatches (bs shard))).Perm
        (crossProduct cfg s) ∧
    ((List.range cfg.joinerAmount).flatMap fun shard =>
      Q4Joiner.flushPairs cfg ((Q4Joiner.stage cfg shard).afterBatches (bs shard))).Perm
        ((crossProduct cfg s).flatMap emission) ∧
    ∀ shard < cfg.joinerAmount, ∃ batches : List (List Q4BlockJoinEdge),
      toShard shard (plannedOutputs cfg plan id s) =
        batches.map .data ++
          [.eof { senderId := id, expectedTotal := batches.flatten.length }] := by
  have hjoin : ((List.range cfg.joinerAmount).flatMap fun shard =>
      blockProducts cfg ((Q4Joiner.stage cfg shard).afterBatches (bs shard))).Perm
        (crossProduct cfg s) := by
    refine perm_of_tally_eq fun w => ?_
    have hlt : ∀ block ∈ gridBlocks cfg plan s, blockPartition cfg block < cfg.joinerAmount :=
      fun block _ => cfg.partition_lt _ _ cfg.joinerAmount_pos
    rw [tally_flatMap, tally_congr fun shard hs => tally_shard (hbs shard (List.mem_range.mp hs)) w,
      tally_buckets hlt fun block _ => blockValue w (plannedEdges cfg plan s) block]
    exact tally_gridBlocks hplan w
  refine ⟨hjoin, ?_, fun shard h => toShard_plannedOutputs id h⟩
  simp only [flushPairs_eq_emission]
  rw [← List.flatMap_assoc]
  exact hjoin.flatMap_right _

end shards

/-! Two sources and two targets of an account on a grid of two rows and three columns, over two
joiners. -/

def twoJoiners : Q4Config := { Q4Config.smallest with
  joinerAmount := 2
  partitionForParts := Q4Config.byCharacters
  joinerAmount_pos := Nat.two_pos
  partition_lt := Q4Config.byCharacters_lt }

def hotAccount : Q4SumClient where
  incoming := Dict.ofList [(⟨"7", "0"⟩, Dict.ofList [(⟨"7", "1"⟩, 2), (⟨"7", "2"⟩, 1)])]
  outgoing := Dict.ofList [(⟨"7", "0"⟩, Dict.ofList [(⟨"7", "3"⟩, 5), (⟨"7", "1"⟩, 1)])]

/-- The four products are there, the one of account `1` with itself among them. -/
theorem splitting_preserves_four_products :
    ((List.range 2).flatMap fun shard =>
      blockProducts twoJoiners ((Q4Joiner.stage twoJoiners shard).afterBatches
      [Body.content
        (toShard shard (plannedOutputs twoJoiners (fun _ => (2, 3)) 0 hotAccount))])).Perm
        [(⟨"7", "1"⟩, ⟨"7", "3"⟩, 10), (⟨"7", "1"⟩, ⟨"7", "1"⟩, 2), (⟨"7", "2"⟩, ⟨"7", "3"⟩, 5),
          (⟨"7", "2"⟩, ⟨"7", "1"⟩, 1)] := by
  have hcross : crossProduct twoJoiners hotAccount =
      [(⟨"7", "1"⟩, ⟨"7", "3"⟩, 10), (⟨"7", "1"⟩, ⟨"7", "1"⟩, 2), (⟨"7", "2"⟩, ⟨"7", "3"⟩, 5),
        (⟨"7", "2"⟩, ⟨"7", "1"⟩, 1)] := by decide +kernel
  rw [← hcross]
  exact (splitting_preserves_join twoJoiners (fun _ => (2, 3)) (fun _ =>
    ⟨by decide, by decide⟩) 0 hotAccount
    (fun shard =>
      [Body.content (toShard shard (plannedOutputs twoJoiners (fun _ => (2, 3)) 0 hotAccount))])
    fun shard _ => by rw [List.flatten_singleton]).1

end MoneyLaundering
