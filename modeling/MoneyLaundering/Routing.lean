import Mathlib.Data.Nat.ModEq
import MoneyLaundering.Lib.SelfDelimiting
import MoneyLaundering.Transaction

/-!
# Compound routing keys

`shard_for_key_parts` (`common/routing.py`) puts the length of every part in front of it before the
parts are hashed. A part may look like a length itself; the key is still read back part by part, so
different sequences of parts hash different bytes.
-/

namespace MoneyLaundering

open Bytes Text

/-- `shard_for_key_parts`. -/
def shardForKeyParts (sha256 : Bytes → Bytes) (parts : List String) (shardCount : Nat) :
    Except String Nat :=
  shardForKey sha256 (encodeText (compoundKey parts)) shardCount

/-- The parts that a key was made of. -/
def readCompoundKey (key : String) : Option (List String) :=
  (SelfDelimiting.readAll (readWithLength ':') key.length key.toList).map (·.map String.ofList)

theorem toList_compoundKey (parts : List String) :
    (compoundKey parts).toList = (parts.map String.toList).flatMap (withLength ':') := by
  rw [compoundKey, String.toList_ofList, List.flatMap_map]
  rfl

/-- A compound key reads back as the parts it was made of. -/
theorem readCompoundKey_compoundKey (parts : List String) :
    readCompoundKey (compoundKey parts) = some parts := by
  have hreads := reads_withLength (c := ':') (by decide)
  rw [readCompoundKey, ← String.length_toList, toList_compoundKey, hreads.readAll_length,
    Option.map_some, List.map_map]
  simp [Function.comp_def]

theorem compoundKey_injective : Function.Injective compoundKey := by
  intro parts parts' h
  have hread := readCompoundKey_compoundKey parts
  rw [h, readCompoundKey_compoundKey] at hread
  exact (Option.some.inj hread).symm

/-- The bytes that are hashed determine the parts. -/
theorem encodeText_compoundKey_injective :
    Function.Injective fun parts => encodeText (compoundKey parts) :=
  encodeText_injective.comp compoundKey_injective

theorem shardForKeyParts_eq (sha256 : Bytes → Bytes) (parts : List String) {shardCount : Nat}
    (hn : 0 < shardCount) :
    shardForKeyParts sha256 parts shardCount =
      .ok (beDecode (sha256 (encodeText (compoundKey parts))) % shardCount) := by
  rw [shardForKeyParts, shardForKey, Except.raiseIf_of_not hn.ne']
  rfl

/-- Compound keys collide in the digest only: the key that is hashed determines the parts, equal
keys go to one shard, and different parts hash different bytes, which share a shard exactly when
their digests agree modulo the number of shards. No relation between two such digests is forced: a
hash function can send them to any two shards. -/
theorem compoundKey_collision_free (parts parts' : List String) (shardCount : Nat)
    (hn : 0 < shardCount) :
    (compoundKey parts = compoundKey parts' ↔ parts = parts') ∧
    (∀ sha256, compoundKey parts = compoundKey parts' →
      shardForKeyParts sha256 parts shardCount = shardForKeyParts sha256 parts' shardCount) ∧
    (parts ≠ parts' →
      encodeText (compoundKey parts) ≠ encodeText (compoundKey parts') ∧
      (∀ sha256, shardForKeyParts sha256 parts shardCount =
        shardForKeyParts sha256 parts' shardCount ↔
        beDecode (sha256 (encodeText (compoundKey parts))) ≡
          beDecode (sha256 (encodeText (compoundKey parts'))) [MOD shardCount]) ∧
      ∀ i j, i < shardCount → j < shardCount → ∃ sha256,
        shardForKeyParts sha256 parts shardCount = .ok i ∧
          shardForKeyParts sha256 parts' shardCount = .ok j) := by
  refine ⟨compoundKey_injective.eq_iff, fun sha256 h => ?_, fun hne => ?_⟩
  · rw [shardForKeyParts, h, ← shardForKeyParts]
  have hkey : encodeText (compoundKey parts) ≠ encodeText (compoundKey parts') :=
    encodeText_compoundKey_injective.ne hne
  refine ⟨hkey, fun sha256 => ?_, fun i j hi hj => ?_⟩
  · rw [shardForKeyParts_eq sha256 parts hn, shardForKeyParts_eq sha256 parts' hn,
      Except.ok.injEq, Nat.ModEq]
  · have hdecode : ∀ i, beDecode (beEncode i i) = i := fun i =>
      beDecode_beEncode (Nat.lt_pow_self (by decide))
    refine ⟨fun key => if key = encodeText (compoundKey parts) then beEncode i i
      else beEncode j j, ?_, ?_⟩
    · rw [shardForKeyParts_eq _ parts hn, if_pos rfl, hdecode, Nat.mod_eq_of_lt hi]
    · rw [shardForKeyParts_eq _ parts' hn, if_neg hkey.symm, hdecode, Nat.mod_eq_of_lt hj]

/-- The parts `("ab", "c")` and `("a", "bc")`, whose plain concatenations are the same. -/
theorem compoundKey_collision_free_abc :
    compoundKey ["ab", "c"] ≠ compoundKey ["a", "bc"] ∧
      ∃ sha256, shardForKeyParts sha256 ["ab", "c"] 7 = .ok 2 ∧
      shardForKeyParts sha256 ["a", "bc"] 7 = .ok 5 := by
  obtain ⟨hiff, -, hne⟩ := compoundKey_collision_free ["ab", "c"] ["a", "bc"] 7 (by decide)
  have hparts : ["ab", "c"] ≠ ["a", "bc"] := by decide
  exact ⟨fun h => hparts (hiff.mp h), (hne hparts).2.2 2 5 (by decide) (by decide)⟩

end MoneyLaundering
