import BlockUpdate.Update.Run

/-!
# The program

- `Program.run`: reads the configuration, runs the update, and reports how it failed.
-/

namespace BlockUpdate

/-- The messages of an error of the configuration and its causes. -/
def Config.Error.chain : Config.Error → List String
  | .os error => error.chain
  | .malformed => ["invalid configuration"]

namespace Program

/-- Runs the update that a configuration file describes; gives the report of its failure, if it
fails. -/
def run (P : Primitives) (now : Timestamp) (configPath : Path) : StateM FileTree (Option String) :=
  fun t =>
    match (Config.load configPath).run t with
    | (.error e, t) => (some (report e.chain), t)
    | (.ok c, t) =>
      let (result, s) := (Update.run P now c).run { files := t }
      match result with
      | .ok _ => (none, s.files)
      | .error e => (some (report e.chain), s.files)

end Program

end BlockUpdate
