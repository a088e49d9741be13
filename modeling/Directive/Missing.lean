import Directive.Text.Quoted

/-!
# Missing names

What a look-up by name lacks: the name, and the names that are there.
-/

namespace Directive

inductive Missing
  | command (name : String) (available : List String)
  | model (name : String) (registered : List String)
  | handler (name : String) (registered : List String)
deriving DecidableEq

namespace Missing

def message : Missing → String
  | .command name available =>
    "Command " ++ name ++ " is not defined in the grammar. Available commands: "
      ++ Text.quotedList available
  | .model name registered =>
    "Unknown model '" ++ name ++ "'. Registered models: " ++ Text.quotedList registered
  | .handler name registered =>
    "No handler registered for " ++ name ++ ". Registered commands: " ++ Text.quotedList registered

end Missing

end Directive
