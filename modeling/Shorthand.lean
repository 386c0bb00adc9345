import Shorthand.Main
import Shorthand.Proofs.Abbreviation.Depth
import Shorthand.Proofs.Abbreviation.Populated
import Shorthand.Proofs.Abbreviation.Grammar
import Shorthand.Proofs.Abbreviation.OwnModifier
import Shorthand.Proofs.Abbreviation.RoundTrip
import Shorthand.Proofs.Abbreviation.Weight
import Shorthand.Proofs.Abbreviation.Routes
import Shorthand.Proofs.Token.Reading
import Shorthand.Proofs.Numbering.Name
import Shorthand.Proofs.Numbering.Pieces
import Shorthand.Proofs.Markup.Origins
import Shorthand.Proofs.Markup.Names
import Shorthand.Proofs.Markup.Attributes
import Shorthand.Proofs.Markup.Bounds
import Shorthand.Proofs.Markup.ReadBack
import Shorthand.Proofs.Token.Seams
import Shorthand.Proofs.Token.Tiling
import Shorthand.Proofs.Abbreviation.Surroundings
import Shorthand.Proofs.Markup.OnePass
import Shorthand.Proofs.Markup.Grouping
import Shorthand.Proofs.Token.Faults
import Shorthand.Proofs.Abbreviation.Places
import Shorthand.Proofs.Markup.Faults
import Shorthand.Proofs.Markup.Inheritance
import Shorthand.Proofs.Markup.Replicas
import Shorthand.Proofs.CommandLine.Sessions
import Shorthand.Proofs.CommandLine.Output
import Shorthand.Proofs.Markup.Distinct
import Shorthand.Proofs.Abbreviation.NormalForm
import Shorthand.Proofs.Abbreviation.WellFormed
import Shorthand.Proofs.Token.Splitting
import Shorthand.Proofs.Token.RoundTrip
import Shorthand.Proofs.Abbreviation.FirstFault
import Shorthand.Proofs.Abbreviation.SingleId
import Shorthand.Proofs.Token.BlockSpelling
import Shorthand.Proofs.Token.Rejoining
import Shorthand.Proofs.Abbreviation.Rearranging
import Shorthand.Proofs.Markup.Rearranging
import Shorthand.Proofs.Numbering.Slices
import Shorthand.Proofs.Numbering.Runs
