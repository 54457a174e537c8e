import BudgetCache.Script.Session
import BudgetCache.Text.Utf8

/-!
# Settings

The limit and the name of a session's cache come from two environment variables. A default takes the
place of a variable that is unset or not UTF-8, of a limit that is not a number in range, and of a
name in which every character is blank. Blank characters around the limit are ignored; the name is
taken as it is.
-/

namespace BudgetCache

/-- The bytes of the environment variables that matter, as far as they are set. -/
structure Environment where
  /-- The variable for the limit. -/
  spaceLimit : Option (List UInt8) := none
  /-- The variable for the name. -/
  cacheName : Option (List UInt8) := none
  deriving Repr, DecidableEq

/-- What a session's cache is made from. -/
structure Settings where
  /-- The limit of the cache. -/
  limit : Int := Cache.defaultLimit
  /-- The name of the cache. -/
  name : String := Cache.defaultName
  deriving Repr, DecidableEq

namespace Settings

/-- The limit that the text of a variable asks for. -/
def limitOf? (text : String) : Option Int :=
  Quantity.limit? (Text.trim text)

/-- The name that the text of a variable asks for. -/
def nameOf? (text : String) : Option String :=
  if (Text.trim text).isEmpty then none else some text

/-- The settings that an environment asks for. -/
def ofEnvironment (env : Environment) : Settings where
  limit := ((env.spaceLimit.bind Text.decode?).bind limitOf?).getD Cache.defaultLimit
  name := ((env.cacheName.bind Text.decode?).bind nameOf?).getD Cache.defaultName

end Settings

namespace Session

/-- The session with an empty cache made from settings. -/
def ofSettings (settings : Settings) : Session :=
  ⟨Cache.empty settings.name settings.limit⟩

end Session

end BudgetCache
