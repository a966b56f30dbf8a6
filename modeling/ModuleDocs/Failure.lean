import ModuleDocs.Store

/-!
# What can go wrong

The library fails for one of these causes and says which. Everything less —
a file that cannot be read while others can, a target without its markers — is
part of an answer and not a failure.
-/

namespace ModuleDocs

/-- Why an operation gave no answer. -/
inductive Failure where
  | file (cause : FileError)
  | rootNotFound (path : Path)
  /-- The documentation directory, or the directory of the target documents in
  it, is missing. -/
  | docsNotFound (path : Path)
  | badSettings
  | badPattern (pattern reason : Text)
  | badDescription (path : Path)
  /-- A value has no form in the format asked for. -/
  | unwritable
  deriving DecidableEq

namespace Failure

/-- The message of a failure whose wording is fixed. -/
def message : Failure → Text
  | rootNotFound p => "source root does not exist: `".toList ++ p.text ++ "`".toList
  | docsNotFound p => "documentation directory does not exist: `".toList ++ p.text ++ "`".toList
  | badPattern pattern reason =>
    "invalid pattern `".toList ++ pattern ++ "`: ".toList ++ reason
  | badSettings => "failed to parse config file".toList
  | badDescription p => "failed to parse metadata file `".toList ++ p.text ++ "`".toList
  | unwritable => "failed to serialize output".toList
  | file .notFound => "NotFound".toList
  | file .notADirectory => "NotADirectory".toList
  | file .isADirectory => "IsADirectory".toList
  | file .directoryNotEmpty => "DirectoryNotEmpty".toList
  | file .tooManyLinks => "FilesystemLoop".toList
  | file .notText => "InvalidData".toList

/-- The diagnostic code of a failure. -/
def code : Failure → Text
  | file _ => "metadoc::io_error".toList
  | rootNotFound _ => "metadoc::root_not_found".toList
  | docsNotFound _ => "metadoc::target_dir_not_found".toList
  | badSettings => "metadoc::config_parse".toList
  | badPattern _ _ => "metadoc::invalid_pattern".toList
  | badDescription _ => "metadoc::metadata_parse".toList
  | unwritable => "metadoc::serialize".toList

end Failure

end ModuleDocs
