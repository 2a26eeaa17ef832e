import BankedStore.Geometry
import BankedStore.SliceMask

/-!
What a driver of accesses needs of a store of values: sliced entries that are read, written under a
mask and cleared.  Storing a whole value is a write under the full mask.
-/

namespace BankedStore

class EntryStore (σ : Type) (α : outParam Type) where
  slicesPerEntry : σ → Nat
  read : σ → Location → Except Fault α
  write : σ → Location → α → SliceMask → Bool → Except Fault σ
  clear : σ → σ

def EntryStore.store {σ α : Type} [EntryStore σ α] (s : σ) (l : Location) (value : α) :
    Except Fault σ :=
  write s l value (.all (slicesPerEntry s)) true

end BankedStore
