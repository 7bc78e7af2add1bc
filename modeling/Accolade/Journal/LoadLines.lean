import Accolade.Catalogue.Loader
import Accolade.Journal.Level

/-!
# Log lines of loading

What loading a catalogue writes to the log. Each rejection is an error, with the definition as it
was given. Once no rule is dropped any more, each achievement that a rule in force requires and no
rule in force awards is a warning. Last comes how many rules and how many rejections there are.
-/

namespace Accolade

/-- The logger of the loader. -/
def loaderLogger : String := "achievements.loader"

/-- The level, event and fields of the line that a rejection writes. -/
def Rejection.line (rejection : Rejection) : Level × String × Fields :=
  (.error, "Invalid achievement rule",
    [("rule", .text rejection.rule), ("error", .text rejection.message),
      ("definition", rejection.definition)])

namespace Loaded

/-- The warning that a rule requires an achievement that no rule awards. -/
def unawardableLine (rule achievement : String) : Level × String × Fields :=
  (.warning, "Rule requires an achievement that no rule awards",
    [("rule", .text rule), ("achievement", .text achievement)])

/-- The lines that loading a catalogue writes, in order. -/
def lines (loaded : Loaded) : List (Level × String × Fields) :=
  loaded.rejections.map Rejection.line ++
    (loaded.catalogue.unawardable.map fun (rule, achievement) =>
      unawardableLine rule achievement) ++
    [(.info, "Rule set loaded",
      [("rules", .integer loaded.catalogue.size), ("errors", .integer loaded.rejections.length)])]

end Loaded

end Accolade
