import ChainedSdk.Model.Basic
import ChainedSdk.Sdk.Basic
/-!
# Data types of models

The type of the response data that a model wraps. The data of a root selection has a type of its
own; the data of a nested selection is found inside that of the model around it. Models come after
the models nested in them, so going through them backwards meets every model after the one around
it.
-/

namespace ChainedSdk

/-- The type of what data holds under a response key: of an item, where it holds a list. -/
def nestedDataType (around key : String) (isList : Bool) : String :=
  let held := "NonNullable<" ++ around ++ ">[\"" ++ key ++ "\"]"
  if isList then "NonNullable<" ++ held ++ ">[number]" else held

/-- The data type of a model, where those of the models around it are known. -/
def Model.dataType? (known : Table String) (model : Model) : Option String :=
  if model.isRoot then some (documentsMember model.name) else known.get? model.name

/-- The data types of the models nested in a model whose own data type is given. -/
def Model.nestedDataTypes (model : Model) (dataType : String) : List (String × String) :=
  model.fields.filterMap fun field =>
    field.model?.map fun nested => (nested, nestedDataType dataType field.name field.isList)

/-- The known data types with those of a model and of the models nested in it. -/
def addDataTypes (known : Table String) (model : Model) : Table String :=
  match model.dataType? known with
  | none => known
  | some dataType =>
    (known.insert model.name dataType).insertAll (model.nestedDataTypes dataType)

/-- The data types of some models, each after the models nested in it. -/
def dataTypes (models : List Model) : Table String := models.reverse.foldl addDataTypes ∅

end ChainedSdk
