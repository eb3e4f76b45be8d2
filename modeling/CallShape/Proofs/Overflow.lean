import CallShape.Proofs.Ledger
import CallShape.Proofs.Shard

/-!
That a shard can be filled at all is shown by a run: texts with the same eight bytes at the start
belong to one shard, and there are more of them than it takes.
-/

set_option autoImplicit false

namespace CallShape.Interner

/-- Positions are numbered from zero, so a full shard has one text more than the last position. -/
theorem Orderly.full_iff {pool : Interner} (orderly : pool.Orderly) (text : String) :
    ¬ (pool.shardFor text).length ≤ Handle.maxPosition ↔ (pool.shardFor text).length = 2 ^ 28 := by
  have bound := orderly.bounded (shardOf text)
  rw [← shardFor_eq, Handle.maxPosition] at bound
  rw [Handle.maxPosition]
  omega

/-- Only a missing text is refused, and only by a full shard. -/
theorem Orderly.intern_error_iff {pool : Interner} (orderly : pool.Orderly) (text : String)
    (reason : InternError) :
    (intern text pool).answer = .error reason ↔
      (pool.find? text = none ∧ (pool.shardFor text).length = 2 ^ 28) ∧
        reason = .shardFull (shardOf text) (2 ^ 28) := by
  cases missing : pool.find? text with
  | some symbol => simp [intern_of_found missing]
  | none =>
      by_cases room : (pool.shardFor text).length ≤ Handle.maxPosition
      · have short : (pool.shardFor text).length ≠ 2 ^ 28 := fun full =>
          (orderly.full_iff text).mpr full room
        simp only [intern_of_room missing room, short, reduceCtorEq, and_false, false_and]
      · have full := (orderly.full_iff text).mp room
        simp only [intern_of_full missing room, full, Except.error.injEq, true_and]
        exact eq_comm

/-- The handle of a text that is found passes the checks on its parts, which are the shard of the
text and its position there. -/
theorem Orderly.handle_of_find? {pool : Interner} (orderly : pool.Orderly) {text : String}
    {symbol : Symbol} (found : pool.find? text = some symbol) :
    Handle.make (shardOf text) symbol.handle.position = .ok symbol.handle ∧
      symbol.handle.shard = shardOf text ∧
      (pool.shardFor text).idxOf? text = some symbol.handle.position := by
  have distinct : (pool.shardFor text).Nodup := orderly.distinct (shardOf text)
  obtain ⟨position, present, rfl⟩ := (orderly.find?_eq_some_iff text symbol).mp found
  have inside := orderly.position_le present
  have own := Handle.position_pack (shardOf text) position (shardOf text).isLt inside
  simp only [symbolAt, own]
  exact ⟨Handle.make_eq_pack _ position (shardOf text).isLt inside,
    Handle.shard_pack (shardOf text) position inside,
    (idxOf?_eq_some_iff_of_nodup distinct text position).mpr present⟩

/-- What a run of requests makes of an interner. -/
theorem after_keeps {pool : Interner} (sound : pool.Sound) (requests : List Request) :
    (after requests pool).Sound ∧ pool.Grows (after requests pool) := by
  induction requests generalizing pool with
  | nil => exact ⟨sound, Grows.refl pool⟩
  | cons request rest ih =>
      obtain ⟨next, grown⟩ := perform_keeps sound request
      obtain ⟨last, later⟩ := ih next
      exact ⟨last, grown.trans later⟩

/-- The limit of a shard, in every sound interner and so in every one that a run leads to. A text
is refused exactly when it is missing and its shard has 2^28 texts, and then nothing changes; any
other text is answered, with a handle that passes the checks on its parts. No run takes a shard
beyond the limit, and texts that are there keep their handles, also in a full shard. -/
theorem shard_limit_is_exact (pool : Interner) (sound : pool.Sound) (text : String) :
    (∀ shard count, (intern text pool).answer = .error (.shardFull shard count) ↔
      pool.find? text = none ∧ pool.shards[shardOf text].length = 2 ^ 28 ∧
        shard = shardOf text ∧ count = 2 ^ 28) ∧
    (∀ reason, (intern text pool).answer = .error reason →
      intern text pool = ⟨.error reason, pool, []⟩) ∧
    (¬ (pool.find? text = none ∧ pool.shards[shardOf text].length = 2 ^ 28) →
      ∃ symbol, (intern text pool).answer = .ok symbol ∧ symbol.text = text ∧
        Handle.make (shardOf text) symbol.handle.position = .ok symbol.handle ∧
        symbol.handle.shard = shardOf text ∧
        (intern text pool).state.shards[shardOf text].idxOf? text =
          some symbol.handle.position) ∧
    (∀ requests, (after requests pool).Sound ∧
      (∀ shard : Fin shardCount, (after requests pool).shards[shard].length ≤ 2 ^ 28) ∧
      ∀ symbol, pool.find? text = some symbol →
        intern text (after requests pool) = ⟨.ok symbol, after requests pool, []⟩) ∧
    ∀ requests index, (stateAt requests index).Sound := by
  refine ⟨?_, ?_, ?_, ?_, stateAt_sound⟩
  · intro shard count
    rw [sound.toOrderly.intern_error_iff, InternError.shardFull.injEq, and_assoc]
    rfl
  · exact fun reason => intern_of_error
  · intro fits
    have kept := intern_keeps sound text
    cases result : (intern text pool).answer with
    | error reason => exact absurd ((sound.toOrderly.intern_error_iff text reason).mp result).1 fits
    | ok symbol =>
        have found := kept.answer symbol result
        exact ⟨symbol, rfl, find?_text found, kept.fit.toOrderly.handle_of_find? found⟩
  · intro requests
    obtain ⟨later, grown⟩ := after_keeps sound requests
    refine ⟨later, later.toOrderly.bounded, ?_⟩
    intro symbol found
    exact intern_of_found (sound.toOrderly.find?_of_grows later.toOrderly grown found)

section Crowd

/-- Texts with one beginning and a number each. -/
def numbered (number : Nat) : String := "variable" ++ toString number

theorem numbered_inj {number other : Nat} (same : numbered number = numbered other) :
    number = other := by
  have digits := (String.append_right_inj _).mp same
  have values := congrArg (fun text => Nat.ofDigitChars 10 text.toList 0) digits
  simpa only [Nat.toString_eq_ofList_toDigits, String.toList_ofList,
    Nat.ofDigitChars_ten_toDigits] using values

/-- The beginning has eight bytes, and these decide. -/
theorem shardOf_numbered (number : Nat) : shardOf (numbered number) = 12 := by
  have same : leadingBytes (numbered number) = leadingBytes "variable" := by
    simp only [leadingBytes, numbered, String.toUTF8_eq_toByteArray, String.toByteArray_append,
      ByteArray.data_append, Array.toList_append]
    exact List.take_append_of_le_length (by decide)
  exact (shardOf_congr same).trans (by decide)

/-- The texts numbered below the count, interned one after the other. -/
def crowd (count : Nat) : List Request :=
  (List.range count).map fun number => .internSymbol (numbered number)

theorem after_crowd_succ (count : Nat) :
    after (crowd (count + 1)) initial =
      (intern (numbered count) (after (crowd count) initial)).state := by
  rw [crowd, List.range_succ, List.map_append, after_append]
  rfl

/-- A crowd that has a shard to itself has not yet brought in the next text. -/
theorem find?_of_crowd {pool : Interner} {count : Nat}
    (same : pool.texts 12 = (List.range count).map numbered) :
    pool.find? (numbered count) = none := by
  rw [find?_eq_none_iff, shardFor_eq, shardOf_numbered, same, List.mem_map]
  rintro ⟨number, below, equal⟩
  have least := List.mem_range.mp below
  rw [numbered_inj equal] at least
  exact Nat.lt_irrefl count least

/-- Up to the limit all of them are taken in, to a shard that a new interner leaves empty. -/
theorem texts_crowd {count : Nat} (within : count ≤ 2 ^ 28) :
    (after (crowd count) initial).texts 12 = (List.range count).map numbered := by
  induction count with
  | zero => decide +kernel
  | succ count ih =>
      have same := ih (Nat.le_of_succ_le within)
      have missing := find?_of_crowd same
      have room : ((after (crowd count) initial).shardFor (numbered count)).length ≤
          Handle.maxPosition := by
        rw [shardFor_eq, shardOf_numbered, same, List.length_map, List.length_range,
          Handle.maxPosition]
        omega
      -- The next text goes to the end of the shard; counting it leaves the shards as they are.
      rw [after_crowd_succ, intern_of_room missing room]
      change ((after (crowd count) initial).push (numbered count)).texts 12 = _
      rw [texts_push, if_pos (shardOf_numbered count).symm, same, List.range_succ,
        List.map_append, List.map_singleton]

/-- As many texts as one shard takes. -/
def brimful : Interner := after (crowd (2 ^ 28)) initial

theorem texts_brimful : brimful.texts 12 = (List.range (2 ^ 28)).map numbered :=
  texts_crowd (Nat.le_refl _)

theorem shard_limit_is_exact_brimful :
    brimful.Sound ∧ brimful.shards[(12 : Fin shardCount)].length = 2 ^ 28 ∧
      intern (numbered (2 ^ 28)) brimful = ⟨.error (.shardFull 12 (2 ^ 28)), brimful, []⟩ ∧
      ∃ symbol, brimful.find? (numbered 7) = some symbol ∧
        intern (numbered 7) brimful = ⟨.ok symbol, brimful, []⟩ := by
  have sound : brimful.Sound := (after_keeps initial_sound _).1
  have full : (brimful.texts 12).length = 2 ^ 28 := by
    rw [texts_brimful, List.length_map, List.length_range]
  obtain ⟨refused, harmless, -⟩ := shard_limit_is_exact brimful sound (numbered (2 ^ 28))
  obtain ⟨-, -, -, kept, -⟩ := shard_limit_is_exact brimful sound (numbered 7)
  refine ⟨sound, full, harmless _ ((refused 12 (2 ^ 28)).mpr ?_), ?_⟩
  · rw [shardOf_numbered]
    exact ⟨find?_of_crowd texts_brimful, full, rfl, rfl⟩
  · have there : numbered 7 ∈ brimful.shardFor (numbered 7) := by
      rw [shardFor_eq, shardOf_numbered, texts_brimful]
      exact List.mem_map_of_mem (List.mem_range.mpr (by decide))
    obtain ⟨symbol, found⟩ := Option.ne_none_iff_exists'.mp fun missing =>
      (find?_eq_none_iff brimful (numbered 7)).mp missing there
    -- The run of no requests is rewritten away, since comparing it with the run that filled the
    -- shard would set out to compute that one.
    have still := (kept []).2.2 symbol found
    rw [after] at still
    exact ⟨symbol, found, still⟩

end Crowd

end CallShape.Interner
