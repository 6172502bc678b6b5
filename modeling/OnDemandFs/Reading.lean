import OnDemandFs.Fault.Basic
import OnDemandFs.Text.Numeral
import OnDemandFs.Text.Utf8

/-!
# Reading through positional reads

The system may answer a positional read with fewer bytes than were asked for; only an empty answer
means the end. `readFully` asks on until it has what it wants or the end is reached, `readToEnd`
until nothing comes any more. Both are given the positional read as a function, so that nothing here
depends on how the system cuts its answers.

A positional read must not start beyond the largest signed 64-bit offset, and one of something must
not reach beyond it.
-/
namespace OnDemandFs.Reading

/-- At an offset, at most so many bytes. -/
abbrev ReadAt := Nat → Nat → Except Fault Bytes

/-- The positional read of a file with the given content, answering in full. -/
def ofContent (content : Bytes) : ReadAt := fun offset size =>
  if offset ≥ Numeral.signedLimit then .error (.io (.system Errno.invalid))
  else if size = 0 then .ok []
  else if offset + size ≥ Numeral.signedLimit then .error (.io (.system Errno.invalid))
  else .ok ((content.drop offset).take size)

/-- Ask on for `size` bytes from `offset`; each round brings at least one, so `size` rounds do. -/
def gather (readAt : ReadAt) : Nat → Nat → Nat → Bytes → Except Fault Bytes
  | 0, _, _, got => .ok got
  | rounds + 1, offset, size, got =>
    if size = 0 then .ok got
    else match readAt offset size with
      | .error fault => .error fault
      | .ok [] => .ok got
      | .ok bytes =>
        gather readAt rounds (offset + bytes.length) (size - bytes.length) (got ++ bytes)

/-- Up to `size` bytes from `offset`, fewer only at the end. -/
def readFully (readAt : ReadAt) (offset size : Nat) : Except Fault Bytes :=
  gather readAt size offset size []

def chunkSize : Nat := 64 * 1024

/-- Chunk after chunk until one is empty, at most `rounds` of them. -/
def gatherAll (readAt : ReadAt) : Nat → Bytes → Except Fault Bytes
  | 0, got => .ok got
  | rounds + 1, got =>
    match readFully readAt got.length chunkSize with
    | .error fault => .error fault
    | .ok [] => .ok got
    | .ok bytes => gatherAll readAt rounds (got ++ bytes)

/-- Everything, from the start; `length` bounds the number of chunks, one byte each at worst. -/
def readToEnd (readAt : ReadAt) (length : Nat) : Except Fault Bytes :=
  gatherAll readAt (length + 1) []

/-- One positional read into a buffer of zeros: how many bytes came, and the whole buffer. -/
def readInto (readAt : ReadAt) (offset size : Nat) : Except Fault (Nat × Bytes) := do
  let bytes ← readAt offset size
  return (bytes.length, bytes ++ List.replicate (size - bytes.length) 0)

end OnDemandFs.Reading
