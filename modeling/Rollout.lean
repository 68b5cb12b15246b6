import Rollout.Bytes
import Rollout.CommandLine
import Rollout.CommandLine.Help
import Rollout.CommandLine.Parse
import Rollout.Config
import Rollout.Decimal.Binary64
import Rollout.Decimal.Format
import Rollout.Decimal.Shortest
import Rollout.Deploy.Desk
import Rollout.Deploy.Request
import Rollout.Deploy.Run
import Rollout.Deploy.Script
import Rollout.Diff
import Rollout.Director.Answer
import Rollout.Director.Client
import Rollout.Director.Connection
import Rollout.Director.Error
import Rollout.Director.Request
import Rollout.Duration
import Rollout.Failure
import Rollout.Http.Message
import Rollout.Http.Url
import Rollout.Http.Wire
import Rollout.Interpolation
import Rollout.Json.Record
import Rollout.Json.Value
import Rollout.Json.Write
import Rollout.Main
import Rollout.Manifest
import Rollout.Phase
import Rollout.Placeholder
import Rollout.Program.Command
import Rollout.Program.Run
import Rollout.Proofs.Config.BaseUrl
import Rollout.Proofs.Config.Document
import Rollout.Proofs.Config.Layers
import Rollout.Proofs.Decimal.Nearest
import Rollout.Proofs.Decimal.ReadBack
import Rollout.Proofs.Deploy.Approval
import Rollout.Proofs.Deploy.Cancellation
import Rollout.Proofs.Deploy.Clearance
import Rollout.Proofs.Deploy.Course
import Rollout.Proofs.Deploy.DirectorRun
import Rollout.Proofs.Deploy.Execution
import Rollout.Proofs.Deploy.Order
import Rollout.Proofs.Deploy.Plan
import Rollout.Proofs.Deploy.Replay
import Rollout.Proofs.Deploy.Report
import Rollout.Proofs.Deploy.Synchronisation
import Rollout.Proofs.Deploy.Target
import Rollout.Proofs.Deploy.Truncation
import Rollout.Proofs.Director.Conversation
import Rollout.Proofs.Director.ReleaseUpload
import Rollout.Proofs.Director.Waiting
import Rollout.Proofs.Except
import Rollout.Proofs.Json.ReadBack
import Rollout.Proofs.Manifest.Canonical
import Rollout.Proofs.Manifest.DeclaredName
import Rollout.Proofs.Manifest.Extraction
import Rollout.Proofs.Manifest.Rereading
import Rollout.Proofs.Placeholder.Occurrences
import Rollout.Proofs.Program.Loading
import Rollout.Proofs.Program.Preview
import Rollout.Proofs.Substitution.Collision
import Rollout.Proofs.Substitution.Dependence
import Rollout.Proofs.Substitution.Faults
import Rollout.Proofs.Substitution.Idempotence
import Rollout.Proofs.Substitution.Identity
import Rollout.Proofs.Substitution.OnePass
import Rollout.Proofs.Substitution.ProperValues
import Rollout.Proofs.Substitution.Shape
import Rollout.Proofs.Terminal.Confirmation
import Rollout.Proofs.Text.Joining
import Rollout.Proofs.Text.Lowercase
import Rollout.Proofs.Text.PercentEncoding
import Rollout.Proofs.Text.Trimming
import Rollout.Proofs.Update.DrainFlag
import Rollout.Proofs.Update.Query
import Rollout.Proofs.Variable.Definition
import Rollout.Proofs.Variable.Descent
import Rollout.Proofs.Variable.Overriding
import Rollout.Proofs.Variable.PairsAndFiles
import Rollout.Proofs.Variable.Precedence
import Rollout.Proofs.Variable.WrittenPair
import Rollout.Proofs.Version.Grammar
import Rollout.Proofs.Version.Order
import Rollout.Proofs.Version.Precedence
import Rollout.Proofs.Yaml.BrokenTag
import Rollout.Proofs.Yaml.LiteralText
import Rollout.Proofs.Yaml.Member
import Rollout.Proofs.Yaml.NumberText
import Rollout.Proofs.Yaml.PlainText
import Rollout.Proofs.Yaml.Position
import Rollout.Proofs.Yaml.QuotedText
import Rollout.Proofs.Yaml.RecordRereading
import Rollout.Proofs.Yaml.Rereading
import Rollout.Proofs.Yaml.RoundTrip
import Rollout.Proofs.Yaml.Sameness
import Rollout.Proofs.Yaml.Scanning
import Rollout.Proofs.Yaml.TagText
import Rollout.Proofs.Yaml.ValueReading
import Rollout.Proofs.Yaml.WrittenNode
import Rollout.Proofs.Yaml.WrittenScalar
import Rollout.Proofs.Yaml.WrittenTokens
import Rollout.SkipDrain
import Rollout.Substitution
import Rollout.Terminal
import Rollout.Text.Base64
import Rollout.Text.Blank
import Rollout.Text.Lowercase
import Rollout.Text.Percent
import Rollout.Text.Printable
import Rollout.Text.Quoted
import Rollout.Text.Runs
import Rollout.Text.Split
import Rollout.Variable
import Rollout.Variable.Lookup
import Rollout.Version
import Rollout.Yaml.Cursor
import Rollout.Yaml.Node
import Rollout.Yaml.Node.Parse
import Rollout.Yaml.Reader
import Rollout.Yaml.Scalar
import Rollout.Yaml.Token
import Rollout.Yaml.Token.Scalar
import Rollout.Yaml.Token.Scan
import Rollout.Yaml.Value
import Rollout.Yaml.Value.Display
import Rollout.Yaml.Value.Write
