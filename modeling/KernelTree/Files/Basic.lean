/-! The operations on files that the program asks for, and how they fail. -/
namespace KernelTree

/-- How an operation fails: for one of the reasons that the program tells apart, or for any other,
in the words of the system. -/
inductive FileError where
  | notFound
  | alreadyExists
  | notADirectory
  | isADirectory
  | nameTooLong
  | zeroInName
  | notText
  | other (text : String)
deriving DecidableEq, Repr, Inhabited

def FileError.message : FileError → String
  | .notFound => "No such file or directory (os error 2)"
  | .alreadyExists => "File exists (os error 17)"
  | .notADirectory => "Not a directory (os error 20)"
  | .isADirectory => "Is a directory (os error 21)"
  | .nameTooLong => "File name too long (os error 36)"
  | .zeroInName => "file name contained an unexpected NUL byte"
  | .notText => "stream did not contain valid UTF-8"
  | .other text => text

/-- A monad in which files can be read and written. A directory is made with those around it, as far
as they are missing; a text replaces what the file held before. -/
class Files (m : Type → Type) where
  read : String → m (Except FileError String)
  createDirectories : String → m (Except FileError Unit)
  write : String → String → m (Except FileError Unit)

end KernelTree
