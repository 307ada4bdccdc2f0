import ColorMarkup.Error
import ColorMarkup.Files.Tree
/-!
# Refusals of settings and logging

Why an operation on options, files or the log is refused, and the wording of
each refusal. A file that cannot be used has no wording of its own.
-/
namespace ColorMarkup.Settings

/-- Why an operation is refused. -/
inductive Refusal where
  | operation (cause : Error)
  | file (cause : FileError)
  | noHome
  | noAttribute (name : Text)
  | noKey (key : Value)
  | notPath (given : Value)
  | noLevelName (given : Text)
  | levelNameNotText (given : Value)
  | unknownLevel (name : Text)
  | badLevel (shown : String)
  | levelNotInteger
  | loggerNotText
  | notIterable (given : Value)
  | unhashable (given : Value)
  deriving Repr

/-- The wording of the refusal. A name that is no level's stands in it as it is. -/
def Refusal.message : Refusal → Text
  | operation cause => .ofString cause.message
  | file .embeddedNul => .ofString "embedded null byte"
  | file cause => .ofString cause.label
  | noHome => .ofString "Could not determine home directory."
  | noAttribute name => .ofString ("No such config option as " ++ name.quoted)
  | noKey key => .ofString key.display
  | notPath given =>
    .ofString ("expected str, bytes or os.PathLike object, not " ++ given.typeName)
  | noLevelName given =>
    .ofString "module 'logging' has no attribute '" ++ given ++ .ofString "'"
  | levelNameNotText given =>
    .ofString s!"attribute name must be string, not '{given.typeName}'"
  | unknownLevel name => .ofString ("Unknown level: " ++ name.quoted)
  | badLevel shown => .ofString ("Level not an integer or a valid string: " ++ shown)
  | levelNotInteger => .ofString "level must be an integer"
  | loggerNotText => .ofString "A logger name must be a string"
  | notIterable given => .ofString s!"'{given.typeName}' object is not iterable"
  | unhashable (.bytes .view _) => .ofString "cannot hash writable memoryview object"
  | unhashable given => .ofString s!"unhashable type: '{given.typeName}'"

end ColorMarkup.Settings
