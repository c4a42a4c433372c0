import Variability.Locator
import Variability.LogLevel
import Variability.Proofs.ConfigurationTexts
import Variability.Proofs.Descriptions
import Variability.Proofs.Enclosures
import Variability.Proofs.FeatureNames
import Variability.Proofs.FirstLines
import Variability.Proofs.JsonLimits
import Variability.Proofs.Layers
import Variability.Proofs.Layout
import Variability.Proofs.Loading
import Variability.Proofs.LocationErrors
import Variability.Proofs.Meaning
import Variability.Proofs.ModelErrors
import Variability.Proofs.Places
import Variability.Proofs.Satisfiability
import Variability.Proofs.SettingsErrors
import Variability.Proofs.Spellings
import Variability.Proofs.Squeezing
import Variability.Sat.Models
import Variability.Session
