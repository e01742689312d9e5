/-!
# File faults

Why the system does not read or write a file, with the number that it gives the reason.
-/

namespace Schemata

inductive FileFault where
  | notFound
  | notDirectory
  | isDirectory
  | nameTooLong
  | zeroInName
  | other (text : String)
deriving DecidableEq, Repr, Inhabited

def FileFault.message : FileFault → String
  | .notFound => "No such file or directory (os error 2)"
  | .notDirectory => "Not a directory (os error 20)"
  | .isDirectory => "Is a directory (os error 21)"
  | .nameTooLong => "File name too long (os error 36)"
  | .zeroInName => "file name contained an unexpected NUL byte"
  | .other text => text

end Schemata
