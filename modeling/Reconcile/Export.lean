import Reconcile.Archive.Files
import Reconcile.ModuleGraph

/-!
# The module graph in a file

The text of the emitted module graph, written to a path. Where a string of the graph is no text there is
nothing to write, but the file is there by then.
-/

namespace Reconcile

/-- Why a graph is not exported: it is not emitted, or not written. -/
inductive ExportFault where
  | emission (fault : EmissionFault)
  | file (path : Path) (fault : FileFault)
  /-- What should be written is no text. -/
  | unencodable
  deriving DecidableEq

/-- What to tell about a graph that is not exported. -/
def ExportFault.message : ExportFault → Str
  | .emission fault => fault.message
  | .file path fault => fault.message path.text
  | .unencodable => "The module graph is no text"

/-- Emit a frozen graph and write its text to a path. The file is made before the text is. -/
def Graph.exportTo (g : Graph) (files : Files) (path : Str) : Attempt ExportFault Files :=
  match ModuleGraph.ofGraph g with
  | .error fault => .stopped files (.emission fault)
  | .ok mg =>
    let write := fun bytes =>
      (files.write (Path.ofText path) bytes).mapFault (.file (Path.ofText path))
    match mg.text.chars? with
    | some cs => write (cs.flatMap String.utf8EncodeChar)
    | none => (write []).andThen fun files => .stopped files .unencodable

end Reconcile
