import Mathlib
import Nydus.Lib.Outcome

/-!
# I/O requests to blobs (`storage/src/device.rs`)

A read of a file becomes a list of `BlobIoVec`s, each a list of `BlobIoDesc`s for the chunks of
one blob. `BlobIoVec::push` asserts that a descriptor belongs to the vector's blob.

Model notes. A blob is its index in the blob table; the blob id, which `push` also compares,
follows from the index. The chunk of a descriptor (`BlobIoChunk`, an `Arc<dyn BlobChunkInfo>`) is
a type parameter: its index in the blob for a chunk the device gives, the chunk rebuilt from its
address in tarfs mode.
-/

namespace Nydus.Storage

open Nydus.Lib

/-- A `BlobIoDesc`: the blob, the chunk, and the part of it to read. -/
structure BlobIoDesc (C : Type) where
  blobIndex : Nat
  chunk : C
  offset : Nat
  size : Nat
  userIo : Bool
  deriving DecidableEq, Repr

/-- A `BlobIoVec`: descriptors of one blob, and the bytes they take. -/
structure BlobIoVec (C : Type) where
  blobIndex : Nat
  biSize : Nat
  biVec : List (BlobIoDesc C)
  deriving DecidableEq, Repr

namespace BlobIoVec

variable {C : Type}

def new (blobIndex : Nat) : BlobIoVec C := ⟨blobIndex, 0, []⟩

/-- `BlobIoVec::push`: the descriptor must be of the vector's blob. -/
def push (v : BlobIoVec C) (desc : BlobIoDesc C) : Outcome (BlobIoVec C) :=
  if v.blobIndex = desc.blobIndex then .ok ⟨v.blobIndex, v.biSize + desc.size, v.biVec ++ [desc]⟩
  else Outcome.panic "assertion `left == right` failed"

theorem new_push (d : BlobIoDesc C) : (new d.blobIndex).push d = .ok ⟨d.blobIndex, d.size, [d]⟩ := by
  simp [push, new]

end BlobIoVec

/-- The descriptors of the vectors, in order. -/
def descsOf {C : Type} (vecs : List (BlobIoVec C)) : List (BlobIoDesc C) :=
  vecs.flatMap BlobIoVec.biVec

theorem descsOf_close {C : Type} (vec : List (BlobIoVec C)) (descs : BlobIoVec C) :
    descsOf (if descs.biVec ≠ [] then vec ++ [descs] else vec) = descsOf vec ++ descs.biVec := by
  by_cases h : descs.biVec = [] <;> simp [descsOf, h]

end Nydus.Storage
