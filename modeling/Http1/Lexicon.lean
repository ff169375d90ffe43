import Http1.Limits
import Http1.Target

/-!
What the lines of a request are read by. Which bytes are a target is for whoever reads them to say;
nothing that is stated of a line depends on it.
-/

namespace Http1

structure Lexicon extends Limits where
  target? : Bytes → Option Target

instance : Coe Lexicon Limits := ⟨Lexicon.toLimits⟩

/-- The targets are those of a URI. -/
def Limits.lexicon (l : Limits) : Lexicon := ⟨l, Target.ofBytes?⟩

def Lexicon.default : Lexicon := Limits.default.lexicon

def Lexicon.uniform (n : Nat) : Lexicon := (Limits.mk n n n n n).lexicon

end Http1
