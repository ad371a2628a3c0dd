import ClassAtlas.ClassFile.Decode
import ClassAtlas.Proofs.Reading.Steps

namespace ClassAtlas

/-!
# Decoders that are used again

A decoder keeps the pool of the last class file and counts the class files it could read.  What
it answers depends on neither.

* `ClassDecl.readFile` — class files from their first byte to their last, as one reader;
* `Decoder.decode_spec` — a decoder answers what this reader gives, whatever it holds;
* `Decoder.Call`, `Decoder.performAll` — histories of calls and their answers;
* `decode_performAll_new` — a decoder with a history answers like a new one.
-/

/-! ### Class files as one reader -/

/-- A pool, if it could be loaded. -/
def Pool.Loaded.result (loaded : Pool.Loaded) : EStateM.Result Error Cursor Pool :=
  match loaded.outcome with
  | .ok () cursor => .ok loaded.pool cursor
  | .error error cursor => .error error cursor

/-- The slot count and the entries of a pool. -/
def Pool.read : Reader Pool := fun cursor => (Pool.empty.load cursor).result

/-- A class file: what stands in front of the pool, the pool, and everything behind it. -/
def ClassDecl.readFile (origin : Origin) (options : DecodeOptions) : Reader ClassDecl := do
  let version ← FileVersion.read options
  let pool ← Pool.read
  ClassDecl.read pool options origin version

/-- The slots a pool has do not matter to what is loaded into it. -/
theorem Pool.load_eq (pool : Pool) : pool.load = Pool.empty.load := rfl

namespace Decoder

/-- How many of some answers are classes. -/
def successes (answers : List (Except Error ClassDecl)) : Nat := answers.countP (·.isOk)

/-- The answer of a decoder is that of the reader, so the state it is in does not show; and the
    number it keeps goes up by one where the answer is a class. -/
theorem decode_spec (decoder : Decoder) (origin : Origin) (data : List UInt8)
    (options : DecodeOptions) :
    (decoder.decode origin data options).2 = (ClassDecl.readFile origin options).value data
      ∧ (decoder.decode origin data options).1.decoded
        = decoder.decoded + successes [(decoder.decode origin data options).2] := by
  unfold decode Reader.value ClassDecl.readFile
  rw [Pool.load_eq, Reader.bind_apply]
  -- The decoder and the reader stop at the same place: the version, the pool, or what follows.
  split
  · rename_i hversion
    rw [hversion]
    exact ⟨rfl, rfl⟩
  · rename_i version cursor hversion
    rw [hversion]
    dsimp only
    rw [Reader.bind_apply, Pool.read, Pool.Loaded.result]
    split
    · rename_i houtcome
      rw [houtcome]
      exact ⟨rfl, rfl⟩
    · rename_i place houtcome
      rw [houtcome]
      dsimp only
      split
      · rename_i hdecl
        rw [hdecl]
        exact ⟨rfl, rfl⟩
      · rename_i hdecl
        rw [hdecl]
        exact ⟨rfl, rfl⟩

/-! ### Histories -/

/-- What can be asked of a decoder. -/
inductive Call where
  /-- To read a class file. -/
  | decode (origin : Origin) (data : List UInt8) (options : DecodeOptions)
  /-- To forget the last class file. -/
  | reset
  /-- To give up the memory for the pool. -/
  | releaseBuffers

/-- The decoder after a call, and the answer if there is one. -/
def perform (decoder : Decoder) : Call → Decoder × Option (Except Error ClassDecl)
  | .decode origin data options =>
    let (next, answer) := decoder.decode origin data options
    (next, some answer)
  | .reset => (decoder.reset, none)
  | .releaseBuffers => (decoder.releaseBuffers, none)

/-- The decoder after calls one after the other, and the answers in their order. -/
def performAll (decoder : Decoder) : List Call → Decoder × List (Except Error ClassDecl)
  | [] => (decoder, [])
  | call :: later =>
    let (next, answer) := decoder.perform call
    let (last, answers) := next.performAll later
    (last, answer.toList ++ answers)

/-- Each call counts the class it gives. -/
theorem decoded_perform (decoder : Decoder) (call : Call) :
    (decoder.perform call).1.decoded
      = decoder.decoded + successes (decoder.perform call).2.toList := by
  cases call with
  | decode origin data options => exact (decode_spec decoder origin data options).2
  | reset => rfl
  | releaseBuffers => rfl

/-- A history counts the classes among its answers. -/
theorem decoded_performAll (decoder : Decoder) (calls : List Call) :
    (decoder.performAll calls).1.decoded
      = decoder.decoded + successes (decoder.performAll calls).2 := by
  induction calls generalizing decoder with
  | nil => rfl
  | cons call later ih =>
    have hfirst := decoded_perform decoder call
    have hlater := ih (decoder.perform call).1
    show ((decoder.perform call).1.performAll later).1.decoded = decoder.decoded
      + successes ((decoder.perform call).2.toList ++ ((decoder.perform call).1.performAll later).2)
    rw [hlater, hfirst, successes, successes, successes, List.countP_append, Nat.add_assoc]

/-- **No history shows.** After any calls, whether they succeeded or failed and wherever they
    stopped, a decoder answers the next one like a new decoder, and the number it keeps is that of
    the class files it could read. -/
theorem decode_performAll_new (calls : List Call) (origin : Origin) (data : List UInt8)
    (options : DecodeOptions) :
    ((new.performAll calls).1.decode origin data options).2 = (new.decode origin data options).2
      ∧ (new.performAll calls).1.decoded = successes (new.performAll calls).2 := by
  constructor
  · rw [(decode_spec ..).1, (decode_spec ..).1]
  · rw [decoded_performAll, new, Nat.zero_add]

end Decoder

end ClassAtlas
