import Workflow.Json.Reader
import Workflow.Json.Writer
import Workflow.Schema.Registry
import Workflow.Script.Basic
import Workflow.Script.Providers
import Workflow.Document.Compile
import Workflow.Session
import Workflow.Proofs.Life
import Workflow.Proofs.Asking
import Workflow.Proofs.Answers
import Workflow.Proofs.Lives
import Workflow.Proofs.Failed
import Workflow.Proofs.Typed
import Workflow.Proofs.Heard
import Workflow.Proofs.Durable
import Workflow.Proofs.Exact
import Workflow.Proofs.Sealed
import Workflow.Proofs.Thinned
import Workflow.Proofs.Streams
import Workflow.Proofs.Apart
import Workflow.Proofs.WellFormed
import Workflow.Proofs.ToolAnswers
import Workflow.Proofs.Belonging
import Workflow.Proofs.Served
import Workflow.Proofs.InForce
import Workflow.Proofs.Reentry
import Workflow.Proofs.Rebuilt
import Workflow.Proofs.Decoding
import Workflow.Proofs.Updates
import Workflow.Proofs.Declared
import Workflow.Proofs.Accrued
import Workflow.Proofs.Shedding
import Workflow.Proofs.Subscriptions
import Workflow.Proofs.Unwritten
import Workflow.Proofs.Registering
import Workflow.Proofs.Heeded
