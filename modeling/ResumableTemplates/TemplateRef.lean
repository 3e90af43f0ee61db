/-!
References to templates. Compiled units and the templates that the embedding program supplies are
each numbered in the order in which they came to be.
-/
namespace ResumableTemplates

inductive TemplateRef
  | compiled (unit : Nat) (name : String)
  | host (index : Nat)
deriving DecidableEq

end ResumableTemplates
