/-!
# `LexChain.About`: the library's own description

The version, and the names under which a user reaches the library.
-/

set_option autoImplicit false

namespace LexChain.About

/-- The version. -/
def version : String := "0.1.0"

/-- The public names in alphabetical order. -/
def publicNames : List String :=
  ["Category", "InvalidAmountError", "LexConfig", "LuthorError", "StateFunction",
   "StateFunctionError", "StateResult", "Token", "Tokenizer", "__version__",
   "get_lex_config", "lex", "lex_config_context", "new", "reset_lex_config", "run",
   "set_lex_config"]

end LexChain.About
