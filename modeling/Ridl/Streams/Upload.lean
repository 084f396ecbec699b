import Ridl.Library.Utf16

/-!
# Uploads

An upload takes the values of an interaction and writes their bytes to the raw upload of
the transport, in chunks of at most the limit of the member. Bytes are split anywhere,
text only between code points. A write waits for all of its chunks, and the next write
starts when it has ended. A write that fails leaves the upload errored: every later write
fails with the same error and writes nothing.

The raw upload is an argument. It may reject a chunk, which ends the write.

## Main definitions

* `byteUpload`, `textUpload`: What one write does.
-/

namespace Ridl

namespace Streams

open Library (Units points encode decode isWellFormed)

/-- A chunk of a raw upload. -/
abbrev Bytes := List UInt8

/-- A failure that the stream adapters raise. -/
inductive StreamError
  | corrupt
  | contractUtf8
deriving DecidableEq

/-- Why a write fails: an error of the adapter, or one of the raw upload. -/
inductive Failure (ρ : Type)
  | stream (error : StreamError)
  | raw (reason : ρ)

/-- A raw upload: whether it rejects a chunk, given the chunks that it has taken. -/
structure RawUpload (ρ : Type) where
  rejects : List Bytes → Bytes → Option ρ

/-- A computation that writes to the raw upload. The chunks that are written stay when it
    fails. -/
abbrev Sending (ρ α : Type) := List Bytes → Except (Failure ρ) α × List Bytes

namespace Sending

variable {ρ α β : Type}

def pure (a : α) : Sending ρ α := fun written => (.ok a, written)

def throw (error : StreamError) : Sending ρ α := fun written => (.error (.stream error), written)

def bind (x : Sending ρ α) (f : α → Sending ρ β) : Sending ρ β := fun written =>
  match x written with
  | (.ok a, written) => f a written
  | (.error e, written) => (.error e, written)

end Sending

variable {ρ : Type}

/-- Writes a chunk and waits for it. -/
def write (raw : RawUpload ρ) (bytes : Bytes) : Sending ρ Unit := fun written =>
  match raw.rejects written bytes with
  | some reason => (.error (.raw reason), written)
  | none => (.ok (), written ++ [bytes])

/-- The chunks from an offset on. -/
def byteLoop (raw : RawUpload ρ) (limit : Nat) (hlimit : 0 < limit) (bytes : Bytes)
    (start : Nat) : Sending ρ Unit :=
  if start < bytes.length then
    (write raw ((bytes.drop start).take limit)).bind (fun _ =>
      byteLoop raw limit hlimit bytes (start + limit))
  else .pure ()
termination_by bytes.length - start

def byteUpload (raw : RawUpload ρ) (limit : Int) (bytes : Bytes) : Sending ρ Unit :=
  if hlimit : limit ≤ 0 then .throw .corrupt
  else
    (if bytes.length = 0 then write raw bytes else .pure ()).bind (fun _ =>
      byteLoop raw limit.toNat (by omega) bytes 0)

/-- Fills a chunk with code points, and writes it before one that does not fit. What is left
    in the chunk is the result. -/
def textLoop (raw : RawUpload ρ) (limit : Int) : List Units → Units → Nat → Sending ρ Units
  | [], chunk, _ => .pure chunk
  | point :: rest, chunk, size =>
      let length := (encode point).length
      if (length : Int) > limit then .throw .corrupt
      else if ((size + length : Nat) : Int) > limit then
        (write raw (encode chunk)).bind (fun _ => textLoop raw limit rest point length)
      else textLoop raw limit rest (chunk ++ point) (size + length)

/-- Encodes text in chunks of complete code points. -/
def textUpload (raw : RawUpload ρ) (limit : Int) (text : Units) : Sending ρ Unit :=
  if !isWellFormed text then .throw .contractUtf8
  else if limit ≤ 0 then .throw .corrupt
  else
    (textLoop raw limit (points text) [] 0).bind (fun chunk =>
      if chunk.length ≠ 0 ∨ text.length = 0 then write raw (encode chunk) else .pure ())

/-- What a write of an upload did: the chunks that it wrote, and how it ended. -/
structure Write (α ρ : Type) where
  value : α
  chunks : List Bytes
  result : Except (Failure ρ) Unit

/-- The writes of an upload, after some chunks and maybe an error. -/
def adaptUpload {α : Type} (send : α → Sending ρ Unit) :
    List Bytes → Option (Failure ρ) → List α → List (Write α ρ)
  | _, _, [] => []
  | written, some e, value :: values =>
      { value, chunks := [], result := .error e } :: adaptUpload send written (some e) values
  | written, none, value :: values =>
      match send value written with
      | (.ok (), after) =>
          { value, chunks := after.drop written.length, result := .ok () } ::
            adaptUpload send after none values
      | (.error e, after) =>
          { value, chunks := after.drop written.length, result := .error e } ::
            adaptUpload send after (some e) values

/-- The writes of an upload that has just been opened. -/
def writes {α : Type} (send : α → Sending ρ Unit) (values : List α) : List (Write α ρ) :=
  adaptUpload send [] none values

/-- The texts of chunks, each of which has to be complete, until one is not. -/
def decodeTextStream : List Bytes → List Units × Option StreamError
  | [] => ([], none)
  | bytes :: chunks =>
      match decode bytes with
      | some text =>
          let rest := decodeTextStream chunks
          (text :: rest.1, rest.2)
      | none => ([], some .contractUtf8)

end Streams

end Ridl
