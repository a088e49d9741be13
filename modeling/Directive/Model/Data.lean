import Directive.Data.Reading
import Directive.Model.Basic

/-!
# Models as data

The data form of a table of models is an object from names to settings. The first model with bad
settings is reported, with everything that is wrong with it.
-/

namespace Directive

def readOptional {α : Type} (read : Json → Reading α) : Json → Reading (Option α)
  | .null => .ok none
  | j => (read j).map some

def readTemperature (j : Json) : Reading Number := do
  let x ← readNumber .memory j
  if !x.le (.ofInt 2) then .fail (.above 2)
  else if !(Binary64.ofInt 0).le x then .fail (.below 0)
  else .ok (.real x)

def readTokenCount (j : Json) : Reading Int := do
  let n ← readWhole j
  if n ≤ 0 then .fail (.notAbove 0) else .ok n

def providerChoices : List (String × Provider) := Provider.all.map fun p => (p.name, p)

namespace ModelSettings

def form : String := "ModelParamSpec"

def read : Json → Reading ModelSettings
  | .obj fields => do
    let ((provider, model), (temperature, maxTokens), _) ←
      ((field fields "provider" none (readOneOf providerChoices)).both
        (field fields "model" none (readLongText 1))).both
      (((field fields "temperature" (some none) (readOptional readTemperature)).both
        (field fields "max_tokens" (some none) (readOptional readTokenCount))).both
      (noOthers fields ["provider", "model", "temperature", "max_tokens"]))
    return { provider, model, temperature, maxTokens }
  | _ => .fail (.notForm .memory form)

end ModelSettings

def Models.ofData (data : Json) : Except Malformed Models :=
  match data with
  | .obj fields => do
    let settings ← fields.mapM fun f =>
      match ModelSettings.read f.2 with
      | .ok s => .ok (f.1, s)
      | .error vs => .error ⟨ModelSettings.form, vs⟩
    return ⟨Table.ofList settings⟩
  | _ => .error ⟨ModelSettings.form, [⟨[], .notTable .memory⟩]⟩

end Directive
