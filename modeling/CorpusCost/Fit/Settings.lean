import CorpusCost.File.Toml
import CorpusCost.Fit.Config

/-!
# Settings files

The settings of a search as a TOML document. Settings that the document does not name keep their
standard value; names that are no setting, or that occur twice, are refused. An integer may stand
where any number may, but not the other way around.
-/

set_option autoImplicit false

namespace CorpusCost.SearchConfig

/-- The settings with one of them replaced; none if there is no such setting or it cannot have that
value. -/
def withEntry? (config : SearchConfig Float) (entry : Toml.Entry) :
    Option (SearchConfig Float) :=
  let count (replace : Nat → SearchConfig Float) := entry.value.natural?.map replace
  match entry.key with
  | "population_size" => count fun n => { config with populationSize := n }
  | "generations" => count fun n => { config with generations := n }
  | "workers" => count fun n => { config with workers := n }
  | "mutation_probability" => some { config with mutationProbability := entry.value.toFloat }
  | "tune_after" => count fun n => { config with tuneAfter := n }
  | "max_gene_value" => some { config with maxGeneValue := entry.value.toFloat }
  | "parent_fraction" => some { config with parentFraction := entry.value.toFloat }
  | "threshold" => some { config with threshold := entry.value.toFloat }
  | "f_beta" => some { config with fBeta := entry.value.toFloat }
  | "seed" => count fun n => { config with seed := some (UInt64.ofNat n) }
  | _ => none

/-- The settings in a document; none if it is no settings document. -/
def ofToml? (content : String) : Option (SearchConfig Float) := do
  let entries ← Toml.entries? content
  if (entries.map Toml.Entry.key).Nodup then entries.foldlM withEntry? standard else none

end CorpusCost.SearchConfig
