import CallShape.Proofs.Signature
import CallShape.Table

set_option autoImplicit false

namespace CallShape.Table

/-- With the names of `pool`, and serials below `bound`. -/
structure Sound (table : Table) (pool : Interner) (bound : Nat) : Prop where
  genuine : ∀ signature ∈ table.signatures, signature.Genuine pool
  distinct : (table.signatures.map Signature.slots).Nodup
  serials : (table.signatures.map Signature.serial).Nodup
  below : ∀ signature ∈ table.signatures, signature.serial < bound
  atHand : ∀ arity signature, table.unnamed[arity]? = some signature →
    signature ∈ table.signatures ∧ signature.slots = List.replicate arity .positional

/-- Signatures are only added; those at hand stay the same. -/
structure Extends (before after : Table) : Prop where
  signatures : before.signatures <+: after.signatures
  unnamed : after.unnamed = before.unnamed
  sink : after.sink = before.sink

theorem Extends.refl (table : Table) : table.Extends table :=
  ⟨List.prefix_refl _, rfl, rfl⟩

theorem Extends.trans {first second third : Table} (early : first.Extends second)
    (late : second.Extends third) : first.Extends third :=
  ⟨early.signatures.trans late.signatures, late.unnamed.trans early.unnamed,
    late.sink.trans early.sink⟩

/-- The table with one signature more. -/
def add (table : Table) (signature : Signature) : Table :=
  { table with signatures := table.signatures ++ [signature] }

theorem extends_add (table : Table) (signature : Signature) : table.Extends (table.add signature) :=
  ⟨List.prefix_append _ _, rfl, rfl⟩

theorem publish_of_known {table : Table} {slots : List Slot} {signature : Signature}
    (found : table.find? slots = some signature) (candidate : Signature) :
    table.publish slots candidate = .known signature := by
  simp only [publish, found]

theorem publish_of_missing {table : Table} {slots : List Slot}
    (missing : table.find? slots = none) (candidate : Signature) :
    table.publish slots candidate = .added (table.add candidate) := by
  simp only [publish, missing, add]

/-- What is found stays found: the first instance for some slots is never replaced. -/
theorem Extends.find? {before after : Table} (extended : before.Extends after)
    {slots : List Slot} {signature : Signature} (found : before.find? slots = some signature) :
    after.find? slots = some signature := by
  obtain ⟨added, same⟩ := extended.signatures
  simp only [Table.find?] at found ⊢
  rw [← same, List.find?_append, found, Option.some_or]

theorem blank_sound (sink : Sink) (pool : Interner) (bound : Nat) :
    (blank sink).Sound pool bound := by
  refine ⟨?_, List.nodup_nil, List.nodup_nil, ?_, ?_⟩
  · intro signature member
    cases member
  · intro signature member
    cases member
  · intro arity signature present
    cases present

namespace Sound

variable {table : Table} {pool : Interner} {bound : Nat}

theorem eq_of_slots (sound : table.Sound pool bound) {first second : Signature}
    (firstMember : first ∈ table.signatures) (secondMember : second ∈ table.signatures)
    (same : first.slots = second.slots) : first = second :=
  List.inj_on_of_nodup_map sound.distinct firstMember secondMember same

theorem eq_of_serial (sound : table.Sound pool bound) {first second : Signature}
    (firstMember : first ∈ table.signatures) (secondMember : second ∈ table.signatures)
    (same : first.serial = second.serial) : first = second :=
  List.inj_on_of_nodup_map sound.serials firstMember secondMember same

theorem eq_of_labels (sound : table.Sound pool bound) {first second : Signature}
    (firstMember : first ∈ table.signatures) (secondMember : second ∈ table.signatures)
    (same : first.labels = second.labels) : first = second := by
  have firstKnown := (sound.genuine first firstMember).known
  have secondKnown := (sound.genuine second secondMember).known
  exact sound.eq_of_slots firstMember secondMember (firstKnown.eq_of_labels secondKnown same)

theorem distinct_labels (sound : table.Sound pool bound) :
    (table.signatures.map Signature.labels).Nodup := by
  apply List.Nodup.map_on _ (List.Nodup.of_map Signature.slots sound.distinct)
  intro first firstMember second secondMember same
  exact sound.eq_of_labels firstMember secondMember same

theorem mono (sound : table.Sound pool bound) {later : Interner} {higher : Nat}
    (early : pool.Orderly) (late : later.Orderly) (grown : pool.Grows later)
    (raised : bound ≤ higher) : table.Sound later higher where
  genuine signature member := (sound.genuine signature member).of_grows early late grown
  distinct := sound.distinct
  serials := sound.serials
  below signature member := Nat.lt_of_lt_of_le (sound.below signature member) raised
  atHand := sound.atHand

/-- The search finds the instance that has the slots, if there is one. -/
theorem find?_eq_some_iff (sound : table.Sound pool bound) (orderly : pool.Orderly)
    {slots : List Slot} (known : pool.Knows slots) (signature : Signature) :
    table.find? slots = some signature ↔
      signature ∈ table.signatures ∧ signature.slots = slots := by
  have recognised : ∀ other ∈ table.signatures,
      (other.arity == slots.length && other.hasSlots slots) = true ↔ other.slots = slots :=
    fun other member => (sound.genuine other member).matches_iff orderly known
  constructor
  · intro found
    have member := List.mem_of_find?_eq_some found
    have accepted := List.find?_some found
    exact ⟨member, (recognised signature member).mp accepted⟩
  · intro owner
    obtain ⟨member, own⟩ := owner
    cases found : table.find? slots with
    | none =>
        have rejected := List.find?_eq_none.mp found signature member
        exact absurd ((recognised signature member).mpr own) rejected
    | some other =>
        have otherMember := List.mem_of_find?_eq_some found
        have accepted := List.find?_some found
        have otherOwn := (recognised other otherMember).mp accepted
        rw [sound.eq_of_slots member otherMember (own.trans otherOwn.symm)]

theorem find?_eq_none_iff (sound : table.Sound pool bound) (orderly : pool.Orderly)
    {slots : List Slot} (known : pool.Knows slots) :
    table.find? slots = none ↔ ∀ signature ∈ table.signatures, signature.slots ≠ slots := by
  constructor
  · intro missing signature member own
    rw [(sound.find?_eq_some_iff orderly known signature).mpr ⟨member, own⟩] at missing
    cases missing
  · intro absent
    cases found : table.find? slots with
    | none => rfl
    | some signature =>
        have ⟨member, own⟩ := (sound.find?_eq_some_iff orderly known signature).mp found
        exact absurd own (absent signature member)

/-- A new instance can be added for slots that have none, under a serial that is not taken. -/
theorem add (sound : table.Sound pool bound) {slots : List Slot} {serial : Nat}
    (known : pool.Knows slots) (absent : ∀ signature ∈ table.signatures, signature.slots ≠ slots)
    (fresh : ∀ signature ∈ table.signatures, signature.serial ≠ serial) (low : serial < bound) :
    (table.add (Signature.build serial slots)).Sound pool bound := by
  refine ⟨?_, ?_, ?_, ?_, ?_⟩
  · intro signature member
    rcases List.mem_append.mp member with old | new
    · exact sound.genuine signature old
    · rw [List.mem_singleton.mp new]
      exact Signature.genuine_build serial known
  · rw [Table.add, List.map_append]
    apply sound.distinct.append (List.nodup_singleton _)
    rw [Signature.slots_build, List.disjoint_singleton, List.mem_map]
    intro taken
    obtain ⟨signature, member, own⟩ := taken
    exact absent signature member own
  · rw [Table.add, List.map_append]
    apply sound.serials.append (List.nodup_singleton _)
    rw [Signature.serial_build, List.disjoint_singleton, List.mem_map]
    intro taken
    obtain ⟨signature, member, own⟩ := taken
    exact fresh signature member own
  · intro signature member
    rcases List.mem_append.mp member with old | new
    · exact sound.below signature old
    · rw [List.mem_singleton.mp new]
      exact low
  · intro arity signature present
    have ⟨member, own⟩ := sound.atHand arity signature present
    exact ⟨List.mem_append_left _ member, own⟩

/-- What is at hand for some slots is their instance. -/
theorem atHand? (sound : table.Sound pool bound) {slots : List Slot} {signature : Signature}
    (found : table.atHand? slots = some signature) :
    signature ∈ table.signatures ∧ signature.slots = slots := by
  simp only [Table.atHand?] at found
  split at found
  · rename_i all
    have ⟨member, own⟩ := sound.atHand slots.length signature found
    refine ⟨member, own.trans (Eq.symm ?_)⟩
    rw [List.eq_replicate_iff]
    refine ⟨rfl, ?_⟩
    intro slot inside
    exact slot.eq_positional (List.all_eq_true.mp all slot inside)
  · cases found

end Sound

end CallShape.Table
