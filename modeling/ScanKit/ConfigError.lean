import ScanKit.Text.Outline

/-! # Settings that nothing can be built from -/

namespace ScanKit

inductive ConfigError where
  /-- There is no room to start with. -/
  | zeroCapacity (what : String)
deriving DecidableEq, Repr

namespace ConfigError

def message : ConfigError → String
  | zeroCapacity what => what ++ " must be at least 1"

def outline : ConfigError → Outline
  | zeroCapacity what => .record "ZeroCapacity" [.named "what" (.text what)]

end ConfigError

end ScanKit
