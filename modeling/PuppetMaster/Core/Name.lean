/-
  PuppetMaster.Core.Name — `core::ValidateName`.

  A name has 1 to `kMaxNameLength` bytes, none of them a space, a control character or DEL.
-/

import PuppetMaster.Core.Status

namespace PuppetMaster.Core

def kMaxNameLength : Nat := 255

def validateName (kind : String) (value : Bytes) : Status :=
  if value.isEmpty then .error .invalidArgument (text (kind ++ " must not be empty"))
  else if kMaxNameLength < value.length then .error .invalidArgument (text (kind ++ " exceeds max length"))
  else if value.any (fun byte => byte ≤ 0x20 || byte == 0x7f) then
    .error .invalidArgument (text (kind ++ " contains whitespace or control characters"))
  else .ok

end PuppetMaster.Core
