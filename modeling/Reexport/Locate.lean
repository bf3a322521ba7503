import Reexport.Entry
import Reexport.Files
import Reexport.Text.Case

/-!
# From specifiers to modules

A relative specifier leads to the first of a list of candidate paths that holds a module: the path
with each extension, then an index module in the directory of that name. A path that already ends in
a known extension stands for itself, or for the source from which a file of that name is made.
-/

namespace Reexport

/-- The extensions of modules, the preferred ones first. -/
def moduleExtensions : List String :=
  [".ts", ".tsx", ".js", ".jsx", ".mjs", ".mts", ".cjs", ".d.ts"]

/-- The extensions of the sources from which a file with the given extension is made. -/
def sourceExtensions (emitted : String) : List String :=
  match emitted with
  | ".js" => [".ts", ".tsx"]
  | ".jsx" => [".tsx"]
  | ".mjs" => [".mts"]
  | ".cjs" => [".cts"]
  | _ => []

/-- Whether a text ends in another. -/
def endsWith (ending text : String) : Bool :=
  ending.toList.isSuffixOf text.toList

/-- The longer of two texts; the first one if they are of one length. -/
def longer (a b : String) : String :=
  if a.length < b.length then b else a

/-- The longest of the extensions in which a path ends; the empty text if there is none. -/
def recognizedExtension (extensions : List String) (path : String) : String :=
  (extensions.filter (endsWith · path)).foldl longer ""

/-- The paths at which the module of a base path may be found, the preferred ones first. -/
def candidates (extensions : List String) (base : String) : List String :=
  let extension := recognizedExtension extensions base
  if extension = "" then
    extensions.map (base ++ ·) ++ extensions.map (Path.join base "index" ++ ·)
  else
    let stem := String.ofList (base.toList.take (base.length - extension.length))
    base :: (sourceExtensions extension).map (stem ++ ·)

/-- The path of the module that a specifier means in a directory. A specifier that is not relative
means none. -/
def locate (files : Files) (extensions : List String) (specifier directory : String) :
    Option String :=
  if Entry.isRelativeSource specifier then
    (candidates extensions (Path.normalize (Path.join directory specifier))).find? files.holds
  else none

/-- Where a specifier leads depends only on which paths lead to modules. -/
theorem locate_congr {files files' : Files} (h : files.holds = files'.holds)
    (extensions : List String) (specifier directory : String) :
    locate files extensions specifier directory = locate files' extensions specifier directory := by
  unfold locate
  rw [h]

/-- Whether a text holds another. -/
def holdsText (part : List Char) : List Char → Bool
  | [] => part.isEmpty
  | c :: cs => part.isPrefixOf (c :: cs) || holdsText part cs

/-- Whether a module can be expected to hold nothing but types: by its name, or by the extension of
declaration files. Small and capital letters count alike. -/
def isTypesModule (specifier path : String) : Bool :=
  let specifier := Text.lower specifier
  let path := Text.lower path
  holdsText ".types".toList specifier.toList || holdsText ".types.".toList path.toList ||
    [".d.ts", ".d.mts", ".d.cts"].any (endsWith · path)

end Reexport
