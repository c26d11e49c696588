import MoneyLaundering.Lib.Grouping
import MoneyLaundering.ScatterGather.FanIn

/-!
# Sharded outputs

How a Q4 worker cuts what it emits: records are grouped by partition, each group is cut into chunks,
every partition gets an `EOF` at the end, and the packets to a partition are numbered from `0`
(`SenderSequencer.stamp`). `content` reads the records back: neither the chunks nor the order of the
partitions shows in it.
-/

namespace MoneyLaundering

open Packet

/-! ## Outputs -/

variable {β : Type}

/-- A logical output of a sharded edge. -/
structure Output (β : Type) where
  shard : Nat
  body : Body β

/-- The `DATA` outputs of some groups. -/
def dataOutputs (size : Nat) (groups : Dict Nat (List β)) (partitions : List Nat) :
    List (Output β) :=
  partitions.flatMap fun p => (chunks size (groups.getD p [])).map fun chunk => ⟨p, .data chunk⟩

/-- One `EOF` for each partition, with the sender and the number of records sent. -/
def eofOutputs (senderId amount : Nat) (total : Nat → Nat) : List (Output β) :=
  (List.range amount).map fun p => ⟨p, .eof { senderId, expectedTotal := total p }⟩

/-- What goes to a partition. -/
def toShard (shard : Nat) (outputs : List (Output β)) : List (Body β) :=
  (outputs.filter (·.shard = shard)).map Output.body

@[simp] theorem toShard_append (shard : Nat) (outputs outputs' : List (Output β)) :
    toShard shard (outputs ++ outputs') = toShard shard outputs ++ toShard shard outputs' := by
  simp [toShard]

/-- The records of some bodies. -/
def Body.content : List (Body β) → List β :=
  List.flatMap fun body => match body with
    | .data batch => batch
    | .eof _ => []

@[simp] theorem Body.content_append (bodies bodies' : List (Body β)) :
    content (bodies ++ bodies') = content bodies ++ content bodies' := List.flatMap_append

theorem Body.content_data (bs : List (List β)) : content (bs.map .data) = bs.flatten := by
  simp [content, List.flatMap_map]

theorem toShard_eofOutputs {shard amount : Nat} (h : shard < amount) (senderId : Nat)
    (total : Nat → Nat) : toShard shard (eofOutputs (β := β) senderId amount total) =
      [.eof { senderId, expectedTotal := total shard }] := by
  have hr : (List.range amount).filter (· = shard) = [shard] := by
    rw [List.filter_eq, List.count_eq_one_of_mem List.nodup_range (List.mem_range.mpr h)]
    rfl
  simp [toShard, eofOutputs, List.filter_map, Function.comp_def, hr]

/-- The outputs that carry data only. -/
def AllData (outputs : List (Output β)) : Prop := ∀ o ∈ outputs, ∃ batch, o.body = .data batch

theorem allData_dataOutputs (size : Nat) (groups : Dict Nat (List β)) (partitions : List Nat) :
    AllData (dataOutputs size groups partitions) := by
  intro o ho
  obtain ⟨p, -, ho⟩ := List.mem_flatMap.mp ho
  obtain ⟨chunk, -, rfl⟩ := List.mem_map.mp ho
  exact ⟨chunk, rfl⟩

theorem AllData.toShard {outputs : List (Output β)} (h : AllData outputs) (shard : Nat) :
    ∃ bs : List (List β), toShard shard outputs = bs.map .data := by
  induction outputs with
  | nil => exact ⟨[], rfl⟩
  | cons o outputs ih =>
    obtain ⟨bs, hbs⟩ := ih fun o ho => h o (List.mem_cons_of_mem _ ho)
    obtain ⟨batch, hb⟩ := h o List.mem_cons_self
    rw [MoneyLaundering.toShard] at hbs
    by_cases hs : o.shard = shard
    · exact ⟨batch :: bs, by simp [MoneyLaundering.toShard, hs, hb, hbs]⟩
    · exact ⟨bs, by simp [MoneyLaundering.toShard, hs, hbs]⟩

/-- Grouping and chunking lose nothing of a partition. -/
theorem content_dataOutputs {size : Nat} (hpos : 0 < size) {groups : Dict Nat (List β)}
    {partitions : List Nat} (hp : partitions.Perm groups.keys) (shard : Nat) :
    Body.content (toShard shard (dataOutputs size groups partitions)) = groups.getD shard [] := by
  have hn : partitions.Nodup := hp.nodup_iff.mpr groups.nodup_keys
  have hmiss : shard ∉ partitions → groups.getD shard [] = [] := fun hm =>
    Dict.getD_of_not_mem_keys (fun hk => hm (hp.mem_iff.mpr hk)) []
  clear hp
  induction partitions with
  | nil => exact (hmiss List.not_mem_nil).symm
  | cons p partitions ih =>
    obtain ⟨hpn, hn⟩ := List.nodup_cons.mp hn
    have hsplit : toShard shard (dataOutputs size groups (p :: partitions)) =
        (if p = shard then (chunks size (groups.getD p [])).map .data else []) ++
          toShard shard (dataOutputs size groups partitions) := by
      rw [dataOutputs, List.flatMap_cons, toShard_append]
      congr 1
      split
      · next h => simp [toShard, List.filter_map, Function.comp_def, h]
      · next h => simp [toShard, List.filter_map, Function.comp_def, h]
    rw [hsplit, Body.content_append]
    by_cases h : p = shard
    · subst h
      have hrest : toShard p (dataOutputs size groups partitions) = [] := by
        rw [toShard, List.map_eq_nil_iff, List.filter_eq_nil_iff]
        intro o ho
        obtain ⟨p', hp', ho⟩ := List.mem_flatMap.mp ho
        obtain ⟨chunk, -, rfl⟩ := List.mem_map.mp ho
        simpa using ne_of_mem_of_not_mem hp' hpn
      rw [if_pos rfl, Body.content_data, flatten_chunks hpos, hrest]
      simp [Body.content]
    · rw [if_neg h]
      refine (List.nil_append _).trans (ih hn fun hm => hmiss ?_)
      exact List.not_mem_cons_of_ne_of_not_mem (Ne.symm h) hm

theorem content_eofOutputs (senderId amount : Nat) (total : Nat → Nat) (shard : Nat) :
    Body.content (toShard shard (eofOutputs (β := β) senderId amount total)) = [] := by
  rw [Body.content, List.flatMap_eq_nil_iff]
  intro body hb
  obtain ⟨o, ho, rfl⟩ := List.mem_map.mp hb
  obtain ⟨p, -, rfl⟩ := List.mem_map.mp (List.mem_of_mem_filter ho)
  rfl

/-! ## The packets of a stage -/

/-- The packets of a worker to a partition: `stamp` numbers them from `0`. -/
def stamped (clientId senderId shard : Nat) (outputs : List (Output β)) : List (Packet β) :=
  (toShard shard outputs).zipIdx.map fun x => ⟨clientId, senderId, x.2, x.1⟩

/-- The packets of all workers of a stage to a partition. -/
def sentTo (clientId amount shard : Nat) (outputs : Nat → List (Output β)) : List (Packet β) :=
  (List.range amount).flatMap fun s => stamped clientId s shard (outputs s)

end MoneyLaundering
