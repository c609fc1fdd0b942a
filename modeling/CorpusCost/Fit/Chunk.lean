/-!
# Chunks

A list cut into parts of nearly equal size, one for each worker that takes one.
-/

set_option autoImplicit false

namespace CorpusCost.Chunk

variable {α : Type}

/-- The sizes of at most `pieces` chunks that hold `size` items together. They differ by at most
one, the larger ones come first, and none is empty. -/
def sizes (size pieces : Nat) : List Nat :=
  if pieces = 0 then []
  else
    List.replicate (size % pieces) (size / pieces + 1) ++
      if size / pieces = 0 then [] else List.replicate (pieces - size % pieces) (size / pieces)

/-- Chunks of the given sizes, in order. -/
def cut (items : List α) : List Nat → List (List α)
  | [] => []
  | size :: sizes => items.take size :: cut (items.drop size) sizes

/-- The items cut into at most `pieces` chunks, in order. -/
def split (items : List α) (pieces : Nat) : List (List α) :=
  cut items (sizes items.length pieces)

@[simp] theorem length_cut (items : List α) (sizes : List Nat) :
    (cut items sizes).length = sizes.length := by
  induction sizes generalizing items with
  | nil => rfl
  | cons size sizes ih => simp [cut, ih]

end CorpusCost.Chunk
