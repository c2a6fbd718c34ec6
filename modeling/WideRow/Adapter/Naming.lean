import WideRow.Definition.Build

/-!
# Names of an adapter

What an adapter and its row type are called, the package they lie in and the file that holds them.

Main definitions:
* `Naming.of?`: the names for a definition;
* `Naming.relativePath`: the path of the file below an output root.
-/

namespace WideRow

/-! ## Paths -/

/-- A path with a piece added: a piece that begins at the root replaces the path. -/
def pushPath (path piece : String) : String :=
  if piece.startsWith "/" then piece
  else if path.isEmpty || path.endsWith "/" then path ++ piece
  else path ++ "/" ++ piece

/-! ## Names -/

/-- The names that an adapter needs. -/
structure Naming where
  adapter : String
  package : String
  sumType : String
  embeddable : String
  deriving DecidableEq, Inhabited

namespace Naming

/-- The name of the adapter of a sum type. -/
def adapterName (sumType : String) : String := Name.simpleName sumType ++ "CompositeUserType"

/-- The name of the row type of a sum type. -/
def embeddableName (sumType : String) : String := Name.simpleName (sumType ++ "Embeddable")

/-- The package of an adapter: the one asked for, else the one described, else the one in which the
sum type lies. -/
def packageOf (d : Definition) (requested : Option String) : String :=
  (requested <|> d.package).getD (Name.inferPackage d.name)

/-- The names for a definition. An adapter cannot lie in the package without a name. -/
def of? (d : Definition) (requested : Option String) : Except StructuralError Naming :=
  let package := packageOf d requested
  if Text.isAllBlank package then .error (.noPackage d.name)
  else .ok ⟨adapterName d.name, package, d.name, embeddableName d.name⟩

/-- The directories of a package: its segments, without empty ones. -/
def directories (n : Naming) : List String :=
  ((Name.segments n.package).filter (!·.isEmpty)).map String.ofList

/-- The name of the file of the adapter. -/
def fileName (n : Naming) : String := n.adapter ++ ".java"

/-- The path of the file of the adapter. -/
def relativePath (n : Naming) : String :=
  (n.directories ++ [n.fileName]).foldl pushPath ""

end Naming

end WideRow
