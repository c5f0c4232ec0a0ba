import SpscRing.Ring.Basic
/-!
# The text of a ring

A short description of a ring for debugging, on one line or one field a line. It
leaves out the fields that tell nothing of the queue, and says so by two dots.
-/

namespace SpscRing.Ring

def shownFields {α : Type} (ring : Ring α) : List (String × String) :=
  [("has_storage", toString ring.storage.isPresent),
    ("capacity", toString ring.capacity.toNat),
    ("producer_index", toString ring.producer.toNat),
    ("consumer_index", toString ring.consumer.toNat),
    ("overwrite", toString ring.overwrite)]

def text {α : Type} (ring : Ring α) : String :=
  let fields := ring.shownFields.map fun (name, value) => name ++ ": " ++ value ++ ", "
  "RingBuffer \x7b " ++ String.join fields ++ ".. \x7d"

def indentedText {α : Type} (ring : Ring α) : String :=
  let fields := ring.shownFields.map fun (name, value) => "    " ++ name ++ ": " ++ value ++ ",\n"
  "RingBuffer \x7b\n" ++ String.join fields ++ "    ..\n\x7d"

end SpscRing.Ring
