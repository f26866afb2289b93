import GlslLayout.Diagnostic

/-!
The version, and the line that announces it.

* `version`, `banner`.
-/

namespace GlslLayout

set_option autoImplicit false

def version : String := "0.1.0"

/-- The log line of the start. -/
def banner : LogEntry :=
  ⟨.info, "RedLilium Shader Interface v" ++ version ++ " initialized"⟩

end GlslLayout
