import CallShape.Proofs.Interning

set_option autoImplicit false

namespace CallShape.Interner

/-- What can be asked of an interner. -/
inductive Request where
  /-- Interns a text and answers with its symbol. -/
  | internSymbol (text : String)
  /-- Interns a text and answers with its handle alone. -/
  | internHandle (text : String)
  | find (text : String)
  | textAt (handle : Handle)

inductive Reply where
  | symbol (symbol : Symbol)
  | handle (handle : Handle)
  | found (symbol : Option Symbol)
  | text (text : String)

namespace Request

def perform : Request → Action Interner Fault Reply
  | .internSymbol text => fun pool =>
      let outcome := intern text pool
      ⟨(outcome.answer.mapError .intern).map .symbol, outcome.state, outcome.notices⟩
  | .internHandle text => fun pool =>
      let outcome := intern text pool
      ⟨(outcome.answer.mapError .intern).map fun symbol => .handle symbol.handle,
        outcome.state, outcome.notices⟩
  | .find text => Action.read fun pool => .found (pool.find? text)
  | .textAt handle => fun pool => ⟨(pool.textAt handle).map .text, pool, []⟩

end Request

/-- The interner after all the requests. -/
def after : List Request → Interner → Interner
  | [], pool => pool
  | request :: rest, pool => after rest (request.perform pool).state

/-- A new interner before request number `index` of a run. -/
def stateAt (requests : List Request) (index : Nat) : Interner :=
  after (requests.take index) initial

/-- Request number `index` of a run interned the text, and was answered with this handle. -/
def Interned (requests : List Request) (index : Nat) (text : String) (handle : Handle) : Prop :=
  (requests[index]? = some (.internSymbol text) ∧ ∃ symbol, symbol.handle = handle ∧
    ((Request.internSymbol text).perform (stateAt requests index)).answer = .ok (.symbol symbol)) ∨
  (requests[index]? = some (.internHandle text) ∧
    ((Request.internHandle text).perform (stateAt requests index)).answer = .ok (.handle handle))

theorem after_append (first second : List Request) (pool : Interner) :
    after (first ++ second) pool = after second (after first pool) := by
  induction first generalizing pool with
  | nil => rfl
  | cons request rest ih => exact ih (request.perform pool).state

theorem stateAt_succ {requests : List Request} {index : Nat} {request : Request}
    (here : requests[index]? = some request) :
    stateAt requests (index + 1) = (request.perform (stateAt requests index)).state := by
  rw [stateAt, List.take_add_one, here, after_append]
  rfl

theorem stateAt_of_length_le {requests : List Request} {index : Nat}
    (past : requests[index]? = none) :
    stateAt requests (index + 1) = stateAt requests index := by
  rw [stateAt, List.take_add_one, past, stateAt, Option.toList_none, List.append_nil]

theorem perform_keeps {pool : Interner} (sound : pool.Sound) (request : Request) :
    (request.perform pool).state.Sound ∧ pool.Grows (request.perform pool).state := by
  cases request with
  | internSymbol text => exact ⟨(intern_keeps sound text).fit, (intern_keeps sound text).grown⟩
  | internHandle text => exact ⟨(intern_keeps sound text).fit, (intern_keeps sound text).grown⟩
  | find text => exact ⟨sound, Grows.refl pool⟩
  | textAt handle => exact ⟨sound, Grows.refl pool⟩

theorem stateAt_sound (requests : List Request) (index : Nat) :
    (stateAt requests index).Sound := by
  induction index with
  | zero => exact initial_sound
  | succ index ih =>
      cases here : requests[index]? with
      | none =>
          rw [stateAt_of_length_le here]
          exact ih
      | some request =>
          rw [stateAt_succ here]
          exact (perform_keeps ih request).1

theorem stateAt_grows (requests : List Request) {early late : Nat} (order : early ≤ late) :
    (stateAt requests early).Grows (stateAt requests late) := by
  induction order with
  | refl => exact Grows.refl _
  | @step late _ ih =>
      cases here : requests[late]? with
      | none =>
          rw [stateAt_of_length_le here]
          exact ih
      | some request =>
          rw [stateAt_succ here]
          exact ih.trans (perform_keeps (stateAt_sound requests late) request).2

theorem internSymbol_answer_iff (text : String) (pool : Interner) (symbol : Symbol) :
    ((Request.internSymbol text).perform pool).answer = .ok (.symbol symbol) ↔
      (intern text pool).answer = .ok symbol := by
  simp only [Request.perform]
  cases (intern text pool).answer with
  | error reason => simp [Except.mapError, Except.map]
  | ok other => simp [Except.mapError, Except.map]

theorem internHandle_answer_iff (text : String) (pool : Interner) (handle : Handle) :
    ((Request.internHandle text).perform pool).answer = .ok (.handle handle) ↔
      ∃ symbol, (intern text pool).answer = .ok symbol ∧ symbol.handle = handle := by
  simp only [Request.perform]
  cases (intern text pool).answer with
  | error reason => simp [Except.mapError, Except.map]
  | ok other => simp [Except.mapError, Except.map]

/-- Both ways of interning give out the handle of the symbol. -/
theorem Interned.intern_answer {requests : List Request} {index : Nat} {text : String}
    {handle : Handle} (interned : Interned requests index text handle) :
    ∃ symbol, (intern text (stateAt requests index)).answer = .ok symbol ∧
      symbol.handle = handle ∧
      stateAt requests (index + 1) = (intern text (stateAt requests index)).state := by
  rcases interned with ⟨here, symbol, own, answer⟩ | ⟨here, answer⟩
  · exact ⟨symbol, (internSymbol_answer_iff text _ symbol).mp answer, own, stateAt_succ here⟩
  · obtain ⟨symbol, result, own⟩ := (internHandle_answer_iff text _ handle).mp answer
    exact ⟨symbol, result, own, stateAt_succ here⟩

/-- A request to intern is answered as the interner answers. -/
theorem interned_iff {requests : List Request} {index : Nat} {text : String}
    (asked : requests[index]? = some (.internSymbol text) ∨
      requests[index]? = some (.internHandle text)) :
    (∃ handle, Interned requests index text handle) ↔
      ∃ symbol, (intern text (stateAt requests index)).answer = .ok symbol := by
  constructor
  · rintro ⟨handle, interned⟩
    obtain ⟨symbol, answer, -⟩ := interned.intern_answer
    exact ⟨symbol, answer⟩
  · rintro ⟨symbol, answer⟩
    refine ⟨symbol.handle, ?_⟩
    rcases asked with here | here
    · exact Or.inl ⟨here, symbol, rfl, (internSymbol_answer_iff text _ symbol).mpr answer⟩
    · exact Or.inr ⟨here, (internHandle_answer_iff text _ _).mpr ⟨symbol, answer, rfl⟩⟩

/-- A text that was interned is found in every later state, under the same handle. -/
theorem Interned.find? {requests : List Request} {index : Nat} {text : String} {handle : Handle}
    (interned : Interned requests index text handle) {later : Nat} (order : index < later) :
    (stateAt requests later).find? text = some ⟨handle, text⟩ := by
  obtain ⟨symbol, answer, rfl, next⟩ := interned.intern_answer
  have found := (intern_keeps (stateAt_sound requests index) text).answer symbol answer
  have own := find?_text found
  rw [← next] at found
  have kept := (stateAt_sound requests (index + 1)).toOrderly.find?_of_grows
    (stateAt_sound requests later).toOrderly (stateAt_grows requests order) found
  rw [kept, ← own]

theorem textAt_eq_ok_iff (pool : Interner) (handle : Handle) (text : String) :
    pool.textAt handle = .ok text ↔
      (pool.texts handle.shard)[handle.position]? = some text := by
  have same : pool.shards[handle.shard] = pool.texts handle.shard := rfl
  rw [textAt, same]
  cases (pool.texts handle.shard)[handle.position]? with
  | none => simp
  | some other => simp

/-- The handle of a shard and a position leads to a text exactly when the position is taken. -/
theorem textAt_pack_ok_iff (pool : Interner) (shard : Fin shardCount) (position : Nat)
    (inside : position ≤ Handle.maxPosition) :
    (∃ text, pool.textAt (Handle.pack shard position) = .ok text) ↔
      position < (pool.texts shard).length := by
  simp only [textAt_eq_ok_iff, Handle.shard_pack shard position inside,
    Handle.position_pack shard position shard.isLt inside, List.getElem?_eq_some_iff]
  constructor
  · intro read
    obtain ⟨text, taken, -⟩ := read
    exact taken
  · intro taken
    exact ⟨(pool.texts shard)[position], taken, rfl⟩

theorem Orderly.intern_of_textAt {pool : Interner} (orderly : pool.Orderly) {handle : Handle}
    {text : String} (read : pool.textAt handle = .ok text) :
    intern text pool = ⟨.ok ⟨handle, text⟩, pool, []⟩ :=
  intern_of_found (orderly.find?_of_texts ((textAt_eq_ok_iff pool handle text).mp read))

/-- A text that is found after interning one was found before, or is the one that was interned. -/
theorem found_before_or_interned {pool : Interner} {text other : String}
    (found : (intern other pool).state.find? text ≠ none) :
    pool.find? text ≠ none ∨ text = other ∧ ∃ symbol, (intern other pool).answer = .ok symbol := by
  by_cases own : text = other
  · subst own
    cases result : (intern text pool).answer with
    | ok symbol => exact Or.inr ⟨rfl, symbol, rfl⟩
    | error reason =>
        apply Or.inl
        intro missing
        by_cases room : (pool.shardFor text).length ≤ Handle.maxPosition
        · rw [intern_of_room missing room] at result
          cases result
        · rw [intern_of_full missing room] at found
          exact found missing
  · apply Or.inl
    intro missing
    exact found ((find?_intern_of_ne pool own).mpr missing)

/-- Where the texts that are found come from. -/
theorem origin_of_found (requests : List Request) (index : Nat) (text : String)
    (found : (stateAt requests index).find? text ≠ none) :
    text = "" ∨ text ∈ presets ∨
      ∃ earlier handle, earlier < index ∧ Interned requests earlier text handle := by
  induction index with
  | zero =>
      have fresh : ¬ (text ≠ "" ∧ text ∉ presets) := fun missing =>
        found ((find?_initial_eq_none_iff text).mpr missing)
      by_cases empty : text = ""
      · exact Or.inl empty
      · exact Or.inr (Or.inl (Classical.not_not.mp fun absent => fresh ⟨empty, absent⟩))
  | succ index ih =>
      have earlier : (stateAt requests index).find? text ≠ none →
          text = "" ∨ text ∈ presets ∨
            ∃ earlier handle, earlier < index + 1 ∧ Interned requests earlier text handle := by
        intro before
        rcases ih before with empty | preset | ⟨earlier, handle, order, interned⟩
        · exact Or.inl empty
        · exact Or.inr (Or.inl preset)
        · exact Or.inr (Or.inr ⟨earlier, handle, Nat.lt_succ_of_lt order, interned⟩)
      cases here : requests[index]? with
      | none =>
          rw [stateAt_of_length_le here] at found
          exact earlier found
      | some request =>
          rw [stateAt_succ here] at found
          cases request with
          | find other => exact earlier found
          | textAt handle => exact earlier found
          | internSymbol other =>
              rcases found_before_or_interned found with before | ⟨rfl, answered⟩
              · exact earlier before
              · obtain ⟨handle, interned⟩ := (interned_iff (Or.inl here)).mpr answered
                exact Or.inr (Or.inr ⟨index, handle, Nat.lt_succ_self index, interned⟩)
          | internHandle other =>
              rcases found_before_or_interned found with before | ⟨rfl, answered⟩
              · exact earlier before
              · obtain ⟨handle, interned⟩ := (interned_iff (Or.inr here)).mpr answered
                exact Or.inr (Or.inr ⟨index, handle, Nat.lt_succ_self index, interned⟩)

/-- What a new interner has is found in every state of a run. -/
theorem found_of_initial {text : String} (fresh : initial.find? text ≠ none)
    (requests : List Request) (index : Nat) : (stateAt requests index).find? text ≠ none := by
  obtain ⟨symbol, found⟩ := Option.ne_none_iff_exists'.mp fresh
  have grown := stateAt_grows requests (Nat.zero_le index)
  have kept := initial_sound.toOrderly.find?_of_grows (stateAt_sound requests index).toOrderly
    grown found
  rw [kept]
  exact Option.some_ne_none symbol

theorem found_iff_origin (requests : List Request) (index : Nat) (text : String) :
    ((stateAt requests index).find? text).isSome ↔
      text = "" ∨ text ∈ presets ∨
        ∃ earlier handle, earlier < index ∧ Interned requests earlier text handle := by
  rw [Option.isSome_iff_ne_none]
  constructor
  · exact origin_of_found requests index text
  · intro origin
    rcases origin with empty | preset | ⟨earlier, handle, order, interned⟩
    · apply found_of_initial
      intro missing
      exact ((find?_initial_eq_none_iff text).mp missing).1 empty
    · apply found_of_initial
      intro missing
      exact ((find?_initial_eq_none_iff text).mp missing).2 preset
    · rw [interned.find? order]
      exact Option.some_ne_none _

/-- Over every run of a new interner: a text that is to be interned is, unless it is new and its
shard is full; a text is read back from its handle for ever; equal handles mean equal texts; a
handle leads to a text exactly when its position is taken, and interning that text gives the handle
again and changes nothing; a text is found exactly when it was there from the start or was interned
before, and then it is found as interning would answer; and the count is the number of texts in the
shards. -/
theorem run_is_dictionary (requests : List Request) :
    (∀ index text,
      requests[index]? = some (.internSymbol text) ∨ requests[index]? = some (.internHandle text) →
        ((∃ handle, Interned requests index text handle) ↔
          ((stateAt requests index).find? text).isSome = true ∨
            ((stateAt requests index).shardFor text).length ≤ Handle.maxPosition)) ∧
    (∀ index text symbol, requests[index]? = some (.internSymbol text) →
      ((Request.internSymbol text).perform (stateAt requests index)).answer =
        .ok (.symbol symbol) → symbol.text = text) ∧
    (∀ index text handle, Interned requests index text handle → ∀ later, index < later →
      (stateAt requests later).textAt handle = .ok text) ∧
    (∀ first second text other handle otherHandle, Interned requests first text handle →
      Interned requests second other otherHandle → (handle = otherHandle ↔ text = other)) ∧
    (∀ index (shard : Fin shardCount) position, position ≤ Handle.maxPosition →
      ∃ handle, Handle.make shard position = .ok handle ∧
        ((∃ text, (stateAt requests index).textAt handle = .ok text) ↔
          position < (stateAt requests index).shards[shard].length) ∧
        ∀ text, (stateAt requests index).textAt handle = .ok text →
          intern text (stateAt requests index) =
            ⟨.ok ⟨handle, text⟩, stateAt requests index, []⟩) ∧
    (∀ index text,
      (((stateAt requests index).find? text).isSome ↔
        text = "" ∨ text ∈ presets ∨
          ∃ earlier handle, earlier < index ∧ Interned requests earlier text handle) ∧
      (∀ symbol, (stateAt requests index).find? text = some symbol →
        (intern text (stateAt requests index)).answer = .ok symbol) ∧
      (Request.find text).perform (stateAt requests index) =
        ⟨.ok (.found ((stateAt requests index).find? text)), stateAt requests index, []⟩) ∧
    (∀ index handle, (Request.textAt handle).perform (stateAt requests index) =
      ⟨((stateAt requests index).textAt handle).map .text, stateAt requests index, []⟩) ∧
    (∀ index, (stateAt requests index).total =
      ∑ shard : Fin shardCount, (stateAt requests index).shards[shard].length) := by
  refine ⟨?_, ?_, ?_, ?_, ?_, ?_, fun _ _ => rfl, ?_⟩
  · intro index text asked
    exact (interned_iff asked).trans (intern_ok_iff text _)
  · intro index text symbol _ answer
    have result := (internSymbol_answer_iff text _ symbol).mp answer
    exact find?_text ((intern_keeps (stateAt_sound requests index) text).answer symbol result)
  · intro index text handle interned later order
    have found := interned.find? order
    have present := (stateAt_sound requests later).toOrderly.texts_of_find? found
    exact (textAt_eq_ok_iff _ handle text).mpr present
  · intro first second text other handle otherHandle firstInterned secondInterned
    have one := firstInterned.find? (Nat.lt_succ_of_le (Nat.le_max_left first second))
    have two := secondInterned.find? (Nat.lt_succ_of_le (Nat.le_max_right first second))
    constructor
    · intro same
      exact (stateAt_sound requests _).toOrderly.text_eq one two same
    · intro same
      rw [same, two] at one
      cases one
      rfl
  · intro index shard position inside
    refine ⟨Handle.pack shard position,
      Handle.make_eq_pack shard position shard.isLt inside, ?_, ?_⟩
    · exact textAt_pack_ok_iff (stateAt requests index) shard position inside
    · intro text read
      exact (stateAt_sound requests index).toOrderly.intern_of_textAt read
  · intro index text
    refine ⟨found_iff_origin requests index text, ?_, rfl⟩
    intro symbol found
    rw [intern_of_found found]
  · intro index
    exact (stateAt_sound requests index).counted

end CallShape.Interner
