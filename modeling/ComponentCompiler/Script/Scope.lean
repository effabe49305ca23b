import ComponentCompiler.Script.Tree

/-! Names bound and used in a tree. Only functions open a scope. -/

namespace ComponentCompiler.Script

namespace ImportSpecifier

def bound : ImportSpecifier → String
  | .named _ _ bound => bound
  | .default _ bound => bound
  | .namespace _ bound => bound

def span : ImportSpecifier → Span
  | .named span _ _ => span
  | .default span _ => span
  | .namespace span _ => span

end ImportSpecifier

/-- A use of a name: its place, whether it stands alone for a key and its value, and whether nothing
around it binds the name. -/
structure Reference where
  name : String
  span : Span
  shorthand : Bool
  free : Bool
deriving DecidableEq, Repr

mutual

def scopeNames : Node → List String
  | .mk (.binding name) _ _ => [name]
  | .mk (.function name) _ _ => name.toList
  | .mk .arrow _ _ => []
  | .mk (.classNode name) _ parts => name.toList ++ scopeNamesOf parts
  | .mk (.importFrom specifiers _) _ _ => specifiers.map (·.bound)
  | .mk _ _ parts => scopeNamesOf parts

def scopeNamesOf : List Node → List String
  | [] => []
  | node :: rest => scopeNames node ++ scopeNamesOf rest

end

mutual

/-- The uses of names in a phrase, in source order; `around` lists the names bound around it. -/
def references (around : List String) : Node → List Reference
  | .mk (.identifier name) span _ => [⟨name, span, false, !around.contains name⟩]
  | .mk (.shorthand name) span _ => [⟨name, span, true, !around.contains name⟩]
  | .mk (.exportList specifiers none) _ _ =>
    specifiers.map fun s => ⟨s.inner, s.place, false, !around.contains s.inner⟩
  | .mk (.function name) _ parts => referencesOf (name.toList ++ scopeNamesOf parts ++ around) parts
  | .mk .arrow _ parts => referencesOf (scopeNamesOf parts ++ around) parts
  | .mk _ _ parts => referencesOf around parts

def referencesOf (around : List String) : List Node → List Reference
  | [] => []
  | node :: rest => references around node ++ referencesOf around rest

end

end ComponentCompiler.Script
