import Schemata.Cli
import Schemata.Cli.Directory

/-!
# Running the command line in a directory

What a run leaves behind: an exit code, a text on each of the two outputs, and the directory, in which
one file may be new. A run that fails changes no file.
-/

namespace Schemata.Cli

/-- What a run leaves behind. -/
structure Exit where
  code : Nat
  output : String := ""
  complaint : String := ""
  directory : Directory

/-- The files of a directory. In a chain of includes the spelled directory only gets longer, and while it
    stays the same every file comes up at most once; so the longest path bounds the chain. -/
def directorySource (d : Directory) : Source where
  read := d.read
  depth := d.files.length * (Directory.maxPath + 1)

def Failure.exit (program : String) (d : Directory) (f : Failure) : Exit where
  code := 1
  complaint := f.message program
  directory := d

/-- Runs the command line in a directory, under the name by which the program was called. -/
def runIn (d : Directory) (program : String) (args : List String) : Exit :=
  match run (directorySource d) args with
  | .shown text => { code := 0, output := text, directory := d }
  | .failed f => f.exit program d
  | .written path text =>
    match d.write path text with
    | .ok changed => { code := 0, directory := changed }
    | .error fault => (Failure.notWritten path fault).exit program d

/-- A run that fails leaves the directory as it was. -/
theorem directory_of_code_ne_zero (d : Directory) (program : String) (args : List String)
    (failed : (runIn d program args).code ≠ 0) : (runIn d program args).directory = d := by
  unfold runIn at failed ⊢
  split
  · rfl
  · rfl
  · split <;> simp_all [Failure.exit]

end Schemata.Cli
