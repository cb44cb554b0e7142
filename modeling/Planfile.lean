import Planfile.File.Tree
import Planfile.Language.Sound
import Planfile.Main
import Planfile.Proofs.Allocation.Language
import Planfile.Proofs.Entry.Relative
import Planfile.Proofs.Enumeration.Elements
import Planfile.Proofs.Error.Unknown
import Planfile.Proofs.Expression.Language
import Planfile.Proofs.Extension.Language
import Planfile.Proofs.Hours.Language
import Planfile.Proofs.Log.Retention
import Planfile.Proofs.Scenario.Language
import Planfile.Proofs.Session.Account
import Planfile.Proofs.Source.Numbering
import Planfile.Proofs.Termination.Commitment
import Planfile.Proofs.Token.Numeral
import Planfile.Proofs.Token.Quoting
import Planfile.Proofs.Token.Shape
import Planfile.Proofs.Unfiled.Session
import Planfile.Proofs.Words.Language
