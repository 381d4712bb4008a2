import Reboot.Lib.Base64

/-!
# Items

`Item` of `rbt/std/item/v1/item.proto`, and the requests of `Publish`
(`reboot/std/pubsub/v1/pubsub.py`) and `enqueue` (`reboot/std/collections/queue/v1/queue.py`), which
name items in the same four fields and are checked and read in the same way.

Mirroring notes:
- `V` is `google.protobuf.Value` and `A` is `google.protobuf.Any`; nothing looks into them.
- The three fields of an `Item` are independent, not a `oneof`.
-/

namespace Reboot.Collections

open Reboot.Lib

/-- `Item` -/
structure Item (V A : Type) where
  value : Option V
  bytes : Option (List Byte)
  any : Option A
  deriving DecidableEq

/-- The fields of a `PublishRequest` and of an `EnqueueRequest`. -/
structure ItemsRequest (V A : Type) where
  value : Option V
  bytes : Option (List Byte)
  any : Option A
  items : List (Item V A)
  deriving DecidableEq

variable {V A : Type}

/-- The items that a request adds; `none` is the `TypeError` where not exactly one field is set. -/
def ItemsRequest.accepted (request : ItemsRequest V A) : Option (List (Item V A)) :=
  if request.value.isSome.toNat + request.bytes.isSome.toNat + request.any.isSome.toNat +
      (decide (0 < request.items.length)).toNat ≠ 1 then none
  else if 0 < request.items.length then some request.items
  else some [⟨request.value, request.bytes, request.any⟩]

end Reboot.Collections
