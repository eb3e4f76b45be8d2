import CallShape.Proofs.Interning
import CallShape.Race.Interning

set_option autoImplicit false

namespace CallShape.Race.Interning

/-- The task is to intern this text, and any symbol that it has come to is the text's own. -/
def Tracks (pool : Interner) (text : String) : Interning → Prop
  | .asked own => own = text
  | .missed own => own = text
  | .inserted symbol => pool.find? text = some symbol
  | .finished (.ok symbol) => pool.find? text = some symbol
  | .finished (.error _) => True

theorem Tracks.of_grows {before after : Interner} {text : String} {task : Interning}
    (tracks : task.Tracks before text) (early : before.Orderly) (late : after.Orderly)
    (grown : before.Grows after) : task.Tracks after text := by
  cases task with
  | asked own => exact tracks
  | missed own => exact tracks
  | inserted symbol => exact early.find?_of_grows late grown tracks
  | finished result =>
      cases result with
      | error reason => trivial
      | ok symbol => exact early.find?_of_grows late grown tracks

theorem advance_keeps {pool : Interner} {text : String} {task : Interning}
    (orderly : pool.Orderly) (tracks : task.Tracks pool text) :
    (task.advance pool).1.Orderly ∧ pool.Grows (task.advance pool).1 ∧
      (task.advance pool).2.1.Tracks (task.advance pool).1 text := by
  have same := Interner.Grows.refl pool
  cases task with
  | asked own =>
      cases tracks
      cases found : pool.find? text with
      | none => simp only [advance, found]; exact ⟨orderly, same, rfl⟩
      | some symbol => simp only [advance, found]; exact ⟨orderly, same, found⟩
  | missed own =>
      cases tracks
      cases found : pool.find? text with
      | some symbol =>
          simp only [advance, Interner.claim_of_found found]
          exact ⟨orderly, same, found⟩
      | none =>
          by_cases room : (pool.shardFor text).length ≤ Handle.maxPosition
          · simp only [advance, Interner.claim_of_room found room]
            exact ⟨orderly.push found room, Interner.grows_push pool text,
              orderly.find?_push found room⟩
          · simp only [advance, Interner.claim_of_full found room]
            exact ⟨orderly, same, trivial⟩
  | inserted symbol => exact ⟨orderly.count, same, tracks⟩
  | finished result => exact ⟨orderly, same, tracks⟩

/-- Whether the next step does not meet a full shard. -/
def hasRoom (pool : Interner) : Interning → Bool
  | .missed text =>
      match pool.claim text with
      | .full _ => false
      | _ => true
  | _ => true

def hasFailed : Interning → Bool
  | .finished (.error _) => true
  | _ => false

/-- Only a full shard makes interning fail. -/
theorem hasFailed_advance {pool : Interner} {task : Interning} (room : task.hasRoom pool = true)
    (sound : task.hasFailed = false) : (task.advance pool).2.1.hasFailed = false := by
  cases task with
  | asked text =>
      cases found : pool.find? text with
      | none => simp only [advance, found, hasFailed]
      | some symbol => simp only [advance, found, hasFailed]
  | missed text =>
      cases claimed : pool.claim text with
      | found symbol => simp only [advance, claimed, hasFailed]
      | added symbol later => simp only [advance, claimed, hasFailed]
      | full reason => simp [hasRoom, claimed] at room
  | inserted symbol => rfl
  | finished result => exact sound

end CallShape.Race.Interning
