import CallShape.Proofs.Dictionary
import CallShape.Proofs.Race.Interning
import CallShape.Proofs.Race.Schedule
import Mathlib.Algebra.BigOperators.Fin
import Mathlib.Data.List.Dedup
import Mathlib.Data.List.Perm.Basic

set_option autoImplicit false

namespace CallShape

namespace Interner

/-- The texts of all shards. -/
def strings (pool : Interner) : List String := (List.finRange shardCount).flatMap pool.texts

theorem length_strings (pool : Interner) : pool.strings.length = pool.held := by
  rw [strings, held, List.length_flatMap, Fin.sum_univ_def]

theorem count_strings (pool : Interner) (text : String) :
    pool.strings.count text = ∑ shard, (pool.texts shard).count text := by
  rw [strings, List.count_flatMap, Fin.sum_univ_def]
  rfl

theorem strings_push (pool : Interner) (text : String) :
    (pool.push text).strings.Perm (text :: pool.strings) := by
  rw [List.perm_iff_count]
  intro other
  have each : ∀ shard, ((pool.push text).texts shard).count other =
      (pool.texts shard).count other +
        if shard = shardOf text then [text].count other else 0 := by
    intro shard
    rw [texts_push]
    split
    · rw [List.count_append]
    · rfl
  have sum : (pool.push text).strings.count other =
      pool.strings.count other + [text].count other := by
    simp only [count_strings, each, Finset.sum_add_distrib, Finset.sum_ite_eq', Finset.mem_univ,
      if_true]
  simp only [sum, List.count_cons, List.count_nil, Nat.zero_add]

/-- No text is held twice, in one shard or in two. -/
theorem Orderly.nodup_strings {pool : Interner} (orderly : pool.Orderly) :
    pool.strings.Nodup := by
  rw [strings, List.nodup_flatMap]
  refine ⟨fun shard _ => orderly.distinct shard, ?_⟩
  refine List.Pairwise.imp ?_ (List.nodup_finRange shardCount)
  intro one two different text inOne inTwo
  exact different ((orderly.placed one text inOne).symm.trans (orderly.placed two text inTwo))

end Interner

namespace Race.Interning

variable {worker : Worker String Interning (Except InternError Symbol)} {shared : Shared}

/-- The text that the worker has inserted and not yet counted. -/
def inserting? (worker : Worker String Interning (Except InternError Symbol)) : Option String :=
  match worker.current with
  | some (_, .inserted symbol) => some symbol.text
  | _ => none

def isInserting (worker : Worker String Interning (Except InternError Symbol)) : Bool :=
  (inserting? worker).isSome

/-- The texts that were counted, each with the total that its count came to. -/
def tally (notices : List Notice) : List (String × Nat) :=
  notices.filterMap fun notice =>
    match notice with
    | .nameAdded text _ total => some (text, total)
    | _ => none

/-- All that a step can do to the texts and to their count: nothing, insert a text that was
missing, or count the one that the worker has inserted. -/
inductive Move (shared : Shared) : Option String → Shared → Option String → Prop where
  | aside (pending : Option String) : Move shared pending shared pending
  | insert {text : String} (missing : shared.pool.find? text = none) :
      Move shared none { shared with pool := shared.pool.push text } (some text)
  | count (text : String) :
      Move shared (some text)
        ⟨shared.pool.count,
          shared.notices ++ [.nameAdded text (shardOf text) (shared.pool.total + 1)]⟩ none

theorem machine_advance_of_silent {task next : Interning} {pool : Interner}
    (same : task.advance shared.pool = (pool, next, [])) :
    machine.advance shared task = ({ shared with pool := pool }, next) := by
  simp only [machine, same, List.append_nil]

theorem task_moves (shared : Shared) (text : String) (task : Interning)
    (unfinished : task.result? = none) (waiting : List String)
    (done : List (String × Except InternError Symbol)) :
    Move shared (inserting? ⟨waiting, some (text, task), done⟩) (machine.advance shared task).1
      (inserting? ⟨waiting, some (text, (machine.advance shared task).2), done⟩) := by
  cases task with
  | asked own =>
      cases found : shared.pool.find? own with
      | some symbol =>
          have next : (asked own).advance shared.pool =
              (shared.pool, .finished (.ok symbol), []) := by
            simp only [advance, found]
          rw [machine_advance_of_silent next]
          exact .aside none
      | none =>
          have next : (asked own).advance shared.pool = (shared.pool, .missed own, []) := by
            simp only [advance, found]
          rw [machine_advance_of_silent next]
          exact .aside none
  | missed own =>
      cases found : shared.pool.find? own with
      | some symbol =>
          have next : (missed own).advance shared.pool =
              (shared.pool, .finished (.ok symbol), []) := by
            simp only [advance, Interner.claim_of_found found]
          rw [machine_advance_of_silent next]
          exact .aside none
      | none =>
          by_cases room : (shared.pool.shardFor own).length ≤ Handle.maxPosition
          · have next : (missed own).advance shared.pool = (shared.pool.push own,
                .inserted (Interner.symbolAt own (shared.pool.shardFor own).length), []) := by
              simp only [advance, Interner.claim_of_room found room]
            rw [machine_advance_of_silent next]
            exact .insert found
          · have next : (missed own).advance shared.pool = (shared.pool,
                .finished (.error (.shardFull (shardOf own) (shared.pool.shardFor own).length)),
                []) := by
              simp only [advance, Interner.claim_of_full found room]
            rw [machine_advance_of_silent next]
            exact .aside none
  | inserted symbol => exact .count symbol.text
  | finished result => cases unfinished

theorem step_moves (shared : Shared)
    (worker : Worker String Interning (Except InternError Symbol)) :
    Move shared (inserting? worker) (worker.step machine shared).1
      (inserting? (worker.step machine shared).2) := by
  obtain ⟨waiting, current, done⟩ := worker
  unfold Worker.step
  cases current with
  | none =>
      cases waiting with
      | nil => exact .aside none
      | cons text rest => exact .aside none
  | some ongoing =>
      obtain ⟨text, task⟩ := ongoing
      cases finished : machine.result? task with
      | none =>
          simp only [finished]
          exact task_moves shared text task finished waiting done
      | some result =>
          simp only [finished]
          cases task with
          | finished own => exact .aside none
          | asked own => cases finished
          | missed own => cases finished
          | inserted symbol => cases finished

/-- The books of a race: every text held is a text of the start, a counted one or one that is
inserted and not yet counted, and the totals follow one another. -/
structure Account (start : Interner) (shared : Shared) (pending : List String) : Prop where
  held : shared.pool.strings.Perm
    (start.strings ++ ((tally shared.notices).map Prod.fst ++ pending))
  total : shared.pool.total = start.total + (tally shared.notices).length
  totals : (tally shared.notices).map Prod.snd =
    List.range' (start.total + 1) (tally shared.notices).length

theorem Account.perm {start : Interner} {pending others : List String}
    (account : Account start shared pending) (same : pending.Perm others) :
    Account start shared others :=
  ⟨account.held.trans ((same.append_left _).append_left _), account.total, account.totals⟩

theorem Account.insert {start : Interner} {pending : List String} {text : String}
    (account : Account start shared pending) :
    Account start { shared with pool := shared.pool.push text } (text :: pending) := by
  refine ⟨?_, account.total, account.totals⟩
  calc (shared.pool.push text).strings
      _ |>.Perm (text :: shared.pool.strings) := Interner.strings_push shared.pool text
      _ |>.Perm (text :: (start.strings ++ ((tally shared.notices).map Prod.fst ++ pending))) :=
        account.held.cons text
      _ |>.Perm (start.strings ++ (text :: ((tally shared.notices).map Prod.fst ++ pending))) :=
        List.perm_middle.symm
      _ |>.Perm (start.strings ++ ((tally shared.notices).map Prod.fst ++ (text :: pending))) :=
        List.perm_middle.symm.append_left _

theorem tally_append_count (notices : List Notice) (text : String) (shard total : Nat) :
    tally (notices ++ [.nameAdded text shard total]) = tally notices ++ [(text, total)] := by
  rw [tally, List.filterMap_append]
  rfl

theorem Account.count {start : Interner} {pending : List String} {text : String}
    (account : Account start shared (text :: pending)) :
    Account start
      ⟨shared.pool.count,
        shared.notices ++ [.nameAdded text (shardOf text) (shared.pool.total + 1)]⟩ pending := by
  refine ⟨?_, ?_, ?_⟩
  · simp only [tally_append_count, List.map_append, List.map_cons, List.map_nil,
      List.append_assoc, List.singleton_append]
    exact account.held
  · simp only [tally_append_count, List.length_append, List.length_singleton]
    have total := account.total
    change shared.pool.total + 1 = _
    omega
  · simp only [tally_append_count, List.map_append, List.length_append, List.length_singleton,
      List.map_cons, List.map_nil, account.totals, List.range'_concat, Nat.one_mul]
    have total := account.total
    rw [show start.total + 1 + (tally shared.notices).length = shared.pool.total + 1 by omega]

theorem Account.move {start : Interner} {before after : Option String} {next : Shared}
    {others : List String} (account : Account start shared (before.toList ++ others))
    (move : Move shared before next after) : Account start next (after.toList ++ others) := by
  cases move with
  | aside pending => exact account
  | insert missing => exact account.insert
  | count text => exact account.count

/-- The texts that are inserted and not yet counted. -/
def pending (system : Crowd) : List String := system.workers.filterMap inserting?

/-- One worker stands out, the others are as they are. -/
theorem perm_filterMap_eraseIdx {α β : Type} (f : α → Option β) {items : List α} {index : Nat}
    {item : α} (present : items[index]? = some item) :
    (items.filterMap f).Perm ((f item).toList ++ (items.eraseIdx index).filterMap f) := by
  obtain ⟨inside, rfl⟩ := List.getElem?_eq_some_iff.mp present
  have split := (List.getElem_cons_eraseIdx_perm inside).symm.filterMap f
  rw [List.filterMap_cons] at split
  cases result : f items[index] with
  | none =>
      rw [result] at split
      exact split
  | some value =>
      rw [result] at split
      exact split

theorem account_step {start : Interner} {system : Crowd}
    (account : Account start system.shared (pending system)) (turn : Nat) :
    Account start (system.step machine turn).shared (pending (system.step machine turn)) := by
  cases present : system.workers[turn]? with
  | none =>
      rw [System.step_of_absent present]
      exact account
  | some worker =>
      have inside := (List.getElem?_eq_some_iff.mp present).1
      have own := account.perm (perm_filterMap_eraseIdx inserting? present)
      have moved := own.move (step_moves system.shared worker)
      rw [System.step_of_present present]
      have later := perm_filterMap_eraseIdx inserting?
        (List.getElem?_set_self (a := (worker.step machine system.shared).2) inside)
      rw [List.eraseIdx_set_eq] at later
      exact moved.perm later.symm

theorem account_run {start : Interner} {system : Crowd}
    (account : Account start system.shared (pending system)) (schedule : List Nat) :
    Account start (system.run machine schedule).shared
      (pending (system.run machine schedule)) := by
  induction schedule generalizing system with
  | nil => exact account
  | cons turn rest ih => exact ih (account_step account turn)

/-- A step adds no text but the one that is being interned. -/
theorem mem_texts_advance {pool : Interner} {text other : String} {task : Interning}
    {shard : Fin shardCount} (tracks : task.Tracks pool text)
    (member : other ∈ (task.advance pool).1.texts shard) :
    other ∈ pool.texts shard ∨ other = text := by
  cases task with
  | asked own =>
      cases found : pool.find? own with
      | none => exact Or.inl (by simpa only [advance, found] using member)
      | some symbol => exact Or.inl (by simpa only [advance, found] using member)
  | missed own =>
      cases tracks
      cases claimed : pool.claim text with
      | found symbol => exact Or.inl (by simpa only [advance, claimed] using member)
      | full reason => exact Or.inl (by simpa only [advance, claimed] using member)
      | added symbol later =>
          simp only [advance, claimed] at member
          rw [Interner.eq_push_of_claim claimed, Interner.texts_push] at member
          split at member
          · rcases List.mem_append.mp member with old | new
            · exact Or.inl old
            · exact Or.inr (List.mem_singleton.mp new)
          · exact Or.inl member
  | inserted symbol => exact Or.inl member
  | finished result => exact Or.inl member

/-- Workers that intern these texts in an interner that once was `start`. -/
def protocol (start : Interner) (requests : List (List String)) :
    Protocol Shared String Interning (Except InternError Symbol) where
  fit shared := shared.pool.Orderly ∧ ∀ shard, ∀ text ∈ shared.pool.texts shard,
    text ∈ start.texts shard ∨ text ∈ requests.flatten
  grows before after := before.pool.Grows after.pool
  refl shared := Interner.Grows.refl shared.pool
  trans := Interner.Grows.trans
  asked text := text ∈ requests.flatten
  underway shared text task := text ∈ requests.flatten ∧ task.Tracks shared.pool text
  completed shared text result := ∀ symbol, result = .ok symbol →
    shared.pool.find? text = some symbol
  apart _ _ := True
  clear _ _ := true

theorem protocol_lawful (start : Interner) (requests : List (List String)) :
    (protocol start requests).Lawful machine where
  symmetric _ := trivial
  enter _ _ asked := ⟨asked, rfl⟩
  enterApart _ _ := trivial
  finish := by
    intro shared text task result underway finished symbol success
    cases task with
    | finished own =>
        cases finished
        rw [success] at underway
        exact underway.2
    | asked own => cases finished
    | missed own => cases finished
    | inserted own => cases finished
  lasting := by
    intro before after text result early late grown completed symbol success
    exact early.1.find?_of_grows late.1 grown (completed symbol success)
  advance := by
    intro shared text task fit underway _ _
    obtain ⟨orderly, grown, tracks⟩ := advance_keeps fit.1 underway.2
    refine ⟨⟨orderly, ?_⟩, grown, underway.1, tracks⟩
    intro shard other member
    rcases mem_texts_advance underway.2 member with old | own
    · exact fit.2 shard other old
    · exact Or.inr (own ▸ underway.1)
  others := by
    intro shared text task otherText other fit underway _ otherUnderway _
    obtain ⟨orderly, grown, -⟩ := advance_keeps fit.1 underway.2
    exact ⟨⟨otherUnderway.1, otherUnderway.2.of_grows fit.1 orderly grown⟩, trivial⟩

/-- Workers that each have texts of their own, and have not begun. -/
def gather (pool : Interner) (requests : List (List String)) : Crowd :=
  ⟨{ pool := pool }, requests.map Worker.ofCalls⟩

/-- How things stand after these turns. -/
def race (pool : Interner) (requests : List (List String)) (schedule : List Nat) : Crowd :=
  (gather pool requests).run machine schedule

/-- The interners that requests and races can lead to, whenever no call is in progress. -/
inductive Reachable : Interner → Prop where
  | requests (requests : List Interner.Request) :
      Reachable (Interner.after requests Interner.initial)
  | race {pool : Interner} (reachable : Reachable pool) (requests : List (List String))
      (schedule : List Nat)
      (idle : ∀ worker ∈ (race pool requests schedule).workers, worker.current = none) :
      Reachable (race pool requests schedule).shared.pool

section Race

variable {pool : Interner} {requests : List (List String)} {schedule : List Nat}

theorem race_holds (orderly : pool.Orderly) (requests : List (List String))
    (schedule : List Nat) :
    (protocol pool requests).Holds (race pool requests schedule) ∧
      pool.Grows (race pool requests schedule).shared.pool := by
  have start : (protocol pool requests).Holds (gather pool requests) := by
    apply Protocol.holds_of_calls
    · exact ⟨orderly, fun shard text member => Or.inl member⟩
    · intro calls member text asked
      exact List.mem_flatten.mpr ⟨calls, member, asked⟩
  exact (protocol_lawful pool requests).run start (System.staysClear_true _ schedule)

theorem race_account (pool : Interner) (requests : List (List String)) (schedule : List Nat) :
    Account pool (race pool requests schedule).shared
      (pending (race pool requests schedule)) := by
  have idle : pending (gather pool requests) = [] := by
    rw [pending, List.filterMap_eq_nil_iff]
    intro worker member
    obtain ⟨texts, -, rfl⟩ := List.mem_map.mp member
    rfl
  have start : Account pool (gather pool requests).shared (pending (gather pool requests)) := by
    rw [idle]
    exact ⟨by rw [gather, tally]; simp, rfl, rfl⟩
  exact account_run start schedule

/-- The count falls short by the texts that are inserted and not yet counted. -/
theorem total_add_inserting (sound : pool.Sound) (requests : List (List String))
    (schedule : List Nat) :
    (race pool requests schedule).shared.pool.total +
        (race pool requests schedule).workers.countP isInserting =
      (race pool requests schedule).shared.pool.held := by
  have account := race_account pool requests schedule
  have lengths := account.held.length_eq
  have inserting : (pending (race pool requests schedule)).length =
      (race pool requests schedule).workers.countP isInserting := by
    rw [pending, List.length_filterMap_eq_countP]
    rfl
  rw [List.length_append, List.length_append, List.length_map, Interner.length_strings,
    Interner.length_strings, inserting, ← sound.counted] at lengths
  have total := account.total
  omega

theorem total_of_idle (sound : pool.Sound)
    (idle : ∀ worker ∈ (race pool requests schedule).workers, worker.current = none) :
    (race pool requests schedule).shared.pool.total =
      (race pool requests schedule).shared.pool.held := by
  rw [← total_add_inserting sound requests schedule, List.countP_eq_zero.mpr, Nat.add_zero]
  intro worker member
  rw [isInserting, inserting?, idle worker member]
  exact Bool.false_ne_true

theorem Reachable.sound (reachable : Reachable pool) : pool.Sound := by
  induction reachable with
  | requests requests =>
      have sound := Interner.stateAt_sound requests requests.length
      rw [Interner.stateAt, List.take_length] at sound
      exact sound
  | race _ requests schedule idle ih =>
      exact ⟨(race_holds ih.toOrderly requests schedule).1.fit.1, total_of_idle ih idle⟩

theorem returned_found (orderly : pool.Orderly)
    {worker : Worker String Interning (Except InternError Symbol)}
    (member : worker ∈ (race pool requests schedule).workers) {text : String} {symbol : Symbol}
    (returned : worker.Returned machine text (.ok symbol)) :
    (race pool requests schedule).shared.pool.find? text = some symbol :=
  (protocol_lawful pool requests).returned (race_holds orderly requests schedule).1 member
    returned symbol rfl

end Race

/-- From every reachable interner, for any number of workers with any texts, at every moment of
every schedule: two calls that have returned symbols got the same handle exactly when they
interned the same text; every shard has what it had, and behind it texts that were asked for, each
once and in its own shard, among them all that were returned; the texts held are those of the
start, the counted ones and those inserted and not yet counted, so that the count falls short of
the texts by the number of workers between the two steps, and is the number of different texts
whenever no call is in progress; and the totals of the counts follow one another from the first
above the start. -/
theorem racing_internings_lose_nothing (pool : Interner) (reachable : Reachable pool)
    (requests : List (List String)) (schedule : List Nat) :
    (∀ one ∈ (race pool requests schedule).workers,
      ∀ two ∈ (race pool requests schedule).workers, ∀ text other first second,
      one.Returned machine text (.ok first) → two.Returned machine other (.ok second) →
      (first.handle = second.handle ↔ text = other)) ∧
    (∀ shard, ((race pool requests schedule).shared.pool.texts shard).Nodup ∧
      ∃ added, (race pool requests schedule).shared.pool.texts shard =
          pool.texts shard ++ added ∧
        ∀ text ∈ added, shardOf text = shard ∧ text ∈ requests.flatten) ∧
    (∀ worker ∈ (race pool requests schedule).workers, ∀ text symbol,
      worker.Returned machine text (.ok symbol) →
      text ∈ (race pool requests schedule).shared.pool.texts (shardOf text)) ∧
    (race pool requests schedule).shared.pool.strings.Perm
      (pool.strings ++ ((tally (race pool requests schedule).shared.notices).map Prod.fst ++
        pending (race pool requests schedule))) ∧
    (race pool requests schedule).shared.pool.total +
        (race pool requests schedule).workers.countP isInserting =
      ∑ shard : Fin shardCount, (race pool requests schedule).shared.pool.shards[shard].length ∧
    ((∀ worker ∈ (race pool requests schedule).workers, worker.current = none) →
      (race pool requests schedule).shared.pool.total =
        (race pool requests schedule).shared.pool.strings.dedup.length) ∧
    (tally (race pool requests schedule).shared.notices).map Prod.snd =
      List.range' (pool.total + 1) (tally (race pool requests schedule).shared.notices).length := by
  have sound := reachable.sound
  obtain ⟨holds, grown⟩ := race_holds sound.toOrderly requests schedule
  obtain ⟨orderly, origin⟩ := holds.fit
  have account := race_account pool requests schedule
  refine ⟨?_, ?_, ?_, account.held, total_add_inserting sound requests schedule, ?_,
    account.totals⟩
  · intro one oneMember two twoMember text other first second firstReturned secondReturned
    have found := returned_found sound.toOrderly oneMember firstReturned
    have otherFound := returned_found sound.toOrderly twoMember secondReturned
    constructor
    · exact orderly.text_eq found otherFound
    · intro same
      rw [same, otherFound] at found
      cases found
      rfl
  · intro shard
    obtain ⟨added, whole⟩ := grown shard
    refine ⟨orderly.distinct shard, added, whole.symm, ?_⟩
    intro text member
    have inside : text ∈ (race pool requests schedule).shared.pool.texts shard := by
      rw [← whole]
      exact List.mem_append_right _ member
    refine ⟨orderly.placed shard text inside, ?_⟩
    rcases origin shard text inside with old | asked
    · have distinct := orderly.distinct shard
      rw [← whole] at distinct
      exact absurd member ((List.nodup_append.mp distinct).2.2 text old text · rfl)
    · exact asked
  · intro worker member text symbol returned
    have found := returned_found sound.toOrderly member returned
    have present := (orderly.find?_eq_some_iff text symbol).mp found
    obtain ⟨position, here, -⟩ := present
    exact List.mem_of_getElem? here
  · intro idle
    rw [total_of_idle sound idle, orderly.nodup_strings.dedup, Interner.length_strings]

/-- An interner that has been asked for one text more than it started with. -/
def opening : List Interner.Request := [.internSymbol "old"]

/-- Two workers intern a new text at the same time, one of them the old one too. -/
def contested : List (List String) := [["new", "old"], ["new"]]

/-- How things stand between the two after these turns. -/
def contest (schedule : List Nat) : Crowd :=
  race (Interner.after opening Interner.initial) contested schedule

/-- At first both have missed the new text, one has inserted it, and it is not yet counted. In the
end all three calls have returned, with one handle for the new text, and it is counted once. -/
theorem racing_internings_lose_nothing_contested :
    Reachable (Interner.after opening Interner.initial) ∧
    ((contest [0, 1, 0, 1, 0]).workers.countP isInserting = 1 ∧
      (contest [0, 1, 0, 1, 0]).shared.pool.total + 1 =
        ∑ shard : Fin shardCount,
          (contest [0, 1, 0, 1, 0]).shared.pool.shards[shard].length) ∧
    (contest (roundRobin 2 12)).workers.map (fun worker => worker.done.map fun call =>
        (call.1, call.2.toOption.map Symbol.handle)) =
      [[("new", some (Handle.pack (shardOf "new") 1)),
        ("old", some (Handle.pack (shardOf "old") 1))],
        [("new", some (Handle.pack (shardOf "new") 1))]] ∧
    (∀ worker ∈ (contest (roundRobin 2 12)).workers, worker.current = none) ∧
    (contest (roundRobin 2 12)).shared.pool.strings.dedup.length = 33 ∧
    tally (contest (roundRobin 2 12)).shared.notices = [("new", 33)] := by
  have reachable : Reachable (Interner.after opening Interner.initial) := .requests opening
  have inserting : (contest [0, 1, 0, 1, 0]).workers.countP isInserting = 1 := by decide +kernel
  have idle : ∀ worker ∈ (contest (roundRobin 2 12)).workers, worker.current = none := by
    have finished : (contest (roundRobin 2 12)).workers.all (·.current.isNone) = true := by
      decide +kernel
    intro worker member
    exact Option.isNone_iff_eq_none.mp (List.all_eq_true.mp finished worker member)
  obtain ⟨-, -, -, -, midway, -, -⟩ :=
    racing_internings_lose_nothing _ reachable contested [0, 1, 0, 1, 0]
  rw [← contest, inserting] at midway
  obtain ⟨-, -, -, -, -, total, -⟩ :=
    racing_internings_lose_nothing _ reachable contested (roundRobin 2 12)
  refine ⟨reachable, ⟨inserting, midway⟩, ?_, idle, (total idle).symm.trans ?_, ?_⟩
  · decide +kernel
  · decide +kernel
  · decide +kernel

end Race.Interning

end CallShape
