import Reboot.Lib.Text

/-!
# Names that components share

What the server, the proxy in front of it and the admin service write the same way: a header
(`reboot/aio/headers.py`), a path (`reboot/aio/auth/allowed_origins.py`), the state types behind a
sorted map (`reboot/server/database.py`), and the key that the database has a state under
(`reboot/server/database.cc`).
-/

namespace Reboot

open Reboot.Lib

/-- `SERVER_ID_HEADER` -/
def serverIdHeader : Str := "x-reboot-server-id".toList

/-- `OAUTH_PATH_PREFIX` -/
def oauthPathPrefix : Str := "/__/oauth/".toList

/-- `SORTED_MAP_TYPE_NAME` -/
def sortedMapTypeName : Str := "rbt.std.collections.v1.SortedMap".toList

/-- `SORTED_MAP_ENTRY_TYPE_NAME` -/
def sortedMapEntryTypeName : Str := "rbt.std.collections.v1.SortedMapEntry".toList

/-- `STATE_KEY_PREFIX` with the separator after it. -/
def stateKeyPrefix : Str := "state:".toList

/-- `MakeActorStateKey` -/
def makeActorStateKey (stateRef : Str) : Str := stateKeyPrefix ++ stateRef

end Reboot
